/-
The configuration of a simulation run and its written form; and the instants of a run: from the
start on in steps of one interval, and always the end.
-/
import StrategyLab.Settings
import StrategyLab.Time.Reading

namespace StrategyLab

/-- What a run is told besides its strategy. -/
structure RunConfig (α : Type) where
  start : Instant
  stop : Instant
  capital : Num α
  /-- The step in milliseconds. -/
  interval : Num α
  baseCurrency : String
  /-- Initial holdings as they are written. -/
  holdings : List (Key α × Value α)
  /-- The granularity of prices as it is written; nothing for all samples. -/
  granularity : Value α
  deriving Repr, Inhabited

namespace RunConfig

variable {α : Type} [Scalar α]

/-- A value that has to be a number above zero. -/
def positiveNum (v : Value α) (cause : StructuralFault α) : Except (Fault α) (Num α) :=
  match v.number? with
  | none => throw (.value (.incomparable "<=" v.kindName "int"))
  | some x => if x.isAtMost (.whole 0) then throw (.structural cause) else pure x

/-- Checks the parts of a configuration: the end must not be at or before the start, the capital
and the step must be positive. -/
def build (start stop capital interval : Value α) (baseCurrency : String)
    (holdings : List (Key α × Value α)) (granularity : Value α) :
    Except (Fault α) (RunConfig α) := do
  let first ← Instant.ofValue start
  let last ← Instant.ofValue stop
  if last.isAtMost first then throw (.structural .endNotAfterStart)
  let capital ← positiveNum capital .nonPositiveCapital
  let interval ← positiveNum interval .nonPositiveInterval
  pure { start := first, stop := last, capital, interval, baseCurrency, holdings, granularity }

/-- The names of the parts. -/
def fieldNames : List String :=
  ["start_date", "end_date", "initial_capital", "rebalance_interval", "base_currency",
   "initial_holdings", "granularity"]

/-- Reads a configuration; its numbers may be written as texts. -/
def ofValue (v : Value α) : Except (Fault α) (RunConfig α) := do
  let fields ← v.asObject
  let start ← Value.field fields "start_date"
  let stop ← Value.field fields "end_date"
  let capital ← ((fields.get? "initial_capital").getD (.real 10000.0)).toReal
  let interval ← ((fields.get? "rebalance_interval").getD
    (.whole Settings.dayMilliseconds)).toWhole
  let base := ((fields.get? "base_currency").getD (.text Settings.baseCurrency)).shown
  let holdings ← Value.objectOrEmpty (fields.get? "initial_holdings")
  build start stop (.real capital) (.whole interval) base holdings
    (Value.ofOption (fields.get? "granularity"))

/-- A configuration of parts that are already of the right kinds. -/
def ofParts (fields : Object α) : Except (Fault α) (RunConfig α) := do
  match Object.unknownName? fieldNames fields with
  | some name => throw (.value (.unknownField "BacktestConfig" name))
  | none => pure ()
  let missing := ["start_date", "end_date"].filter fun name => !Object.has fields name
  if !missing.isEmpty then throw (.value (.missingFields "BacktestConfig" missing))
  let part (name : String) (default : Value α) : Value α := (Object.get? fields name).getD default
  let holdings ← (part "initial_holdings" (.object [])).toObject
  build (part "start_date" .null) (part "end_date" .null) (part "initial_capital" (.real 10000.0))
    (part "rebalance_interval" (.whole Settings.dayMilliseconds))
    (part "base_currency" (.text Settings.baseCurrency)).shown holdings (part "granularity" .null)

/-- The configuration over another range of time. -/
def withWindow (c : RunConfig α) (start stop : Value α) : Except (Fault α) (RunConfig α) :=
  build start stop (.num c.capital) (.num c.interval) c.baseCurrency c.holdings c.granularity

/-- Holdings in the order of their names. -/
def sortedHoldings (c : RunConfig α) : List (Key α × Value α) :=
  c.holdings.mergeSort fun a b => a.1.shown ≤ b.1.shown

/-- The written form. -/
def toValue (c : RunConfig α) : Value α :=
  .record [("start_date", c.start.toValue), ("end_date", c.stop.toValue),
    ("initial_capital", .num c.capital), ("rebalance_interval", .num c.interval),
    ("base_currency", .text c.baseCurrency), ("initial_holdings", .object c.sortedHoldings),
    ("granularity", c.granularity)]

end RunConfig

/-! ## The instants of a run -/

namespace Grid

/-- How many steps of a length fit between two counts, both ends included. -/
def stepCount (start stop step : Int) : Nat := ((stop - start).fdiv step + 1).toNat

/-- The counts from a start on in steps of a length. -/
def stepsFrom (start step : Int) (count : Nat) : List Int :=
  (List.range count).map fun (k : Nat) => start + k * step

/-- The counts from a start to an end in steps, always ending on the end. -/
def counts (start stop step : Int) : List Int :=
  let regular := stepsFrom start step (stepCount start stop step)
  if regular.getLast? = some stop then regular else regular ++ [stop]

variable {α : Type} [Scalar α]

/-- The instants from a start to an end, an interval in milliseconds apart. -/
def build (start stop : Instant) (interval : Num α) : Except (Fault α) (List Instant) := do
  let step ← Duration.ofMilliseconds interval
  match start, stop with
  | .known a, .known b =>
    if step = 0 then throw (.value .zeroDivisor)
    else pure ((counts a b step).map .known)
  | _, _ => throw (.request .missingEnds)

end Grid

end StrategyLab
