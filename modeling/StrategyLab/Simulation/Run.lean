/-
Simulation runs: a strategy is executed at every instant of a grid, on prices read off the series
of the needed tokens. Interest accrues before the blocks of a step, for the time since the last
executed step. A step without a usable price for a needed token is skipped.
-/
import StrategyLab.Block.Execute
import StrategyLab.Price.Oracle
import StrategyLab.Simulation.Config
import StrategyLab.Simulation.Report

namespace StrategyLab.Simulation

variable {α : Type} [Scalar α]

/-! ## Before the first step -/

/-- The tokens of a strategy that can be run. -/
def strategyTokens (blocks : List (Block α)) : Except (Fault α) (List String) :=
  if blocks.isEmpty then throw (.structural .emptyStrategy)
  else
    let unknown := (blocks.filter fun b => b.kind?.isNone).map (·.kind)
    if !unknown.isEmpty then
      throw (.structural (.unknownBlockKinds ((Block.firstSeen unknown).mergeSort (· ≤ ·))))
    else
      let tokens := Block.referencedTokens blocks
      if tokens.isEmpty then throw (.structural .noTokens) else pure tokens

/-- The tokens that need a price at every step. -/
def neededTokens (c : RunConfig α) (tokens : List String) : List String :=
  Block.firstSeen (c.baseCurrency :: c.holdings.map (fun (k, _) => k.shown) ++ tokens)

/-- An account with a capital and further holdings, which are credited in order. -/
def openLedger (capital : Num α) (baseCurrency : String) (holdings : Object α) :
    Except (Fault α) (Ledger α) := do
  let l ← Ledger.start capital baseCurrency
  holdings.foldlM (fun (l : Ledger α) (key, v) => do
    let x ← v.toReal
    let next ← l.credit key.shown (.real x)
    pure next) l

/-! ## Steps -/

/-- The state of a run between two steps. -/
structure State (α : Type) where
  ledger : Ledger α
  /-- The prices of the executed steps, the latest last. -/
  history : List (String × List α)
  /-- The equity after the executed steps, the latest first. -/
  curve : List (Instant × α)
  skipped : Nat
  initialEquity : Option α
  lastStep : Option Instant

/-- The price of a token at an instant. The base currency is the unit of account, so that it
is worth one where it has no series. -/
def stepPrice (oracle : Oracle α) (baseCurrency : String) (t : Instant) (token : String) :
    Except (Fault α) α :=
  match oracle.lookup token with
  | some series => series.priceAt t
  | none => pure (if token = baseCurrency then 1.0 else 0.0)

/-- The prices of the tokens at an instant; those that are not positive are left out. -/
def stepPrices (oracle : Oracle α) (baseCurrency : String) (t : Instant) (needed : List String) :
    Except (Fault α) (List (String × α)) :=
  needed.filterMapM fun token => do
    let price ← stepPrice oracle baseCurrency t token
    pure (if 0.0 < price then some (token, price) else none)

/-- The history after one more price per token. -/
def extendHistory (history : List (String × List α)) (prices : List (String × α)) :
    List (String × List α) :=
  history.map fun (token, seen) =>
    match prices.lookup token with
    | some price => (token, seen ++ [price])
    | none => (token, seen)

/-- The days since the last executed step, zero at the first one. -/
def daysSince (last : Option Instant) (t : Instant) : Except (Fault α) α := do
  match last with
  | none => pure 0.0
  | some last =>
    match ← t.elapsed? last with
    | some ns => pure (Duration.inDays ns)
    | none => pure 0.0

/-- Executes the blocks at an instant with prices for all needed tokens. -/
def executeStep (blocks : List (Block α)) (s : State α) (t : Instant)
    (prices : List (String × α)) : Except (Fault α) (State α) := do
  let quotes : Quotes α := prices.map fun (token, price) => (token, .real price)
  let initialEquity := s.initialEquity.getD (s.ledger.equity quotes)
  let days ← daysSince s.lastStep t
  let (_, grown) := s.ledger.accrueInterest (.real days)
  let history := extendHistory s.history prices
  let run := SequenceRun.execute blocks { timestamp := t, prices := quotes, history } grown
  match run.fault with
  | some f => throw f
  | none =>
    pure
      { s with
        ledger := run.ledger, history, curve := (t, run.ledger.equity quotes) :: s.curve
        initialEquity := some initialEquity, lastStep := some t }

/-- One step of a run. -/
def step (blocks : List (Block α)) (oracle : Oracle α) (baseCurrency : String)
    (needed : List String) (s : State α) (t : Instant) : Except (Fault α) (State α) := do
  let prices ← stepPrices oracle baseCurrency t needed
  if prices.length < needed.length then pure { s with skipped := s.skipped + 1 }
  else executeStep blocks s t prices

/-- The state before the first step. -/
def initialState (l : Ledger α) (needed : List String) : State α :=
  { ledger := l, history := needed.map fun token => (token, []), curve := [], skipped := 0,
    initialEquity := none, lastStep := none }

/-! ## The result -/

/-- The time between the first and the last executed step, in days. -/
def spanDays (curve : List (Instant × α)) : Except (Fault α) α := do
  match curve.head?, curve.getLast? with
  | some first, some last =>
    match ← last.1.elapsed? first.1 with
    | some ns => pure (Duration.inDays ns)
    | none => pure Scalar.undefined
  | _, _ => pure Scalar.undefined

/-- The report on a run in its final state. -/
def report (c : RunConfig α) (s : State α) : Except (Fault α) (Report α) := do
  let curve := s.curve.reverse
  if curve.isEmpty then throw (.data .noUsableStep)
  else
    let initial := match s.initialEquity with
      | some x => if x == 0.0 then c.capital.value else x
      | none => c.capital.value
    let days ← spanDays curve
    pure
      { metrics := Metrics.compute (curve.map (·.2)) s.ledger.trades initial days
        curve, trades := s.ledger.trades, skipped := s.skipped }

/-- Runs a strategy on the prices of an oracle. -/
def run (blocks : List (Block α)) (oracle : Oracle α) (c : RunConfig α) :
    Except (Fault α) (Report α) := do
  let tokens ← strategyTokens blocks
  let needed := neededTokens c tokens
  let fetched ← oracle.prices needed c.start c.stop c.granularity
  let usable := fetched.filter fun (_, series) => !series.isEmpty
  if usable.isEmpty then throw (.data (.nothingFetched needed))
  let ledger ← openLedger c.capital c.baseCurrency c.holdings
  let grid ← Grid.build c.start c.stop c.interval
  let final ← grid.foldlM (step blocks usable c.baseCurrency needed) (initialState ledger needed)
  report c final

end StrategyLab.Simulation
