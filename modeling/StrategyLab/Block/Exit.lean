/-
Exit blocks: they close those open asset positions that meet a condition, crediting the full
amount and recording one trade each. Debts are never closed.
-/
import StrategyLab.Block.ExitCondition
import StrategyLab.Block.Outcome
import StrategyLab.Time.Reading

namespace StrategyLab.Block

variable {α : Type} [Scalar α]

/-! ## Closing positions -/

/-- The asset positions that a block looks at: those in its asset, or all without one. -/
def assetPositions (b : Block α) (l : Ledger α) : List (Position α) :=
  l.positions.filter fun p =>
    !p.isLiability &&
      match b.param? "asset" with
      | none | some .null => true
      | some (.text asset) => p.asset == asset
      | some _ => false

/-- Closes a position at a price. -/
def closeAt (m : Market α) (p : Position α) (price : α) : Action α Unit := do
  Action.closePosition p.id
  Action.credit p.asset p.amount
  Action.recordSingle m .exit p.asset p.amount price 0.0

/-- The change of a position's value since its opening, in percent. -/
def changePercent (p : Position α) (price : α) : Except (Fault α) α :=
  let entry := p.amount * p.entryPrice
  let current := p.amount * price
  if entry == 0.0 then throw (.value .zeroDivisor)
  else pure ((current - entry) / entry * 100.0)

/-- Closes the positions for which a decision gives a price; answers their assets. -/
def closeWhere (m : Market α) (decision : Position α → Except (Fault α) (Option α)) :
    List (Position α) → Action α (List String)
  | [] => pure []
  | p :: rest => do
    match ← decision p with
    | some price =>
      closeAt m p price
      let more ← closeWhere m decision rest
      pure (p.asset :: more)
    | none => closeWhere m decision rest

/-- The decision to close at the market price, for positions with a price and a positive entry
price that meet a condition. -/
def atMarket (m : Market α) (condition : Position α → Num α → Except (Fault α) Bool)
    (p : Position α) : Except (Fault α) (Option α) :=
  match m.prices.lookup p.asset with
  | none => pure none
  | some price =>
    if price.isAtMost (.whole 0) || decide (p.entryPrice ≤ 0.0) then pure none
    else do
      let meets ← condition p price
      pure (if meets then some price.value else none)

/-! ## Stop loss and take profit -/

/-- Closes positions that lost at least a percentage. -/
def stopLoss (b : Block α) (m : Market α) : Action α (Outcome α) := do
  let threshold ← b.positive "percentage" (some 10.0)
  let positions := b.assetPositions (← get)
  if positions.isEmpty then pure (.idle "No positions to check for stop loss" [])
  else
    let exits ← closeWhere m (atMarket m fun p price => do
      let change ← changePercent p price.value
      pure (decide (threshold ≤ -change))) positions
    let payload := [("exits", Value.texts exits), ("threshold", .real threshold)]
    if exits.isEmpty then
      pure (.idle ("Stop loss not triggered (max drawdown: " ++ Scalar.text threshold ++ "%)")
        payload)
    else pure (.didFire ("Stop loss triggered: exited positions in " ++ commaList exits) payload)

/-- Closes positions that gained at least a percentage. -/
def takeProfit (b : Block α) (m : Market α) : Action α (Outcome α) := do
  let target ← b.positive "percentage" (some 20.0)
  let positions := b.assetPositions (← get)
  if positions.isEmpty then pure (.idle "No positions to check for take profit" [])
  else
    let exits ← closeWhere m (atMarket m fun p price => do
      let change ← changePercent p price.value
      pure (decide (target ≤ change))) positions
    let payload := [("exits", Value.texts exits), ("target", .real target)]
    if exits.isEmpty then
      pure (.idle ("Take profit not triggered (target: " ++ Scalar.text target ++ "%)") payload)
    else pure (.didFire ("Take profit triggered: exited positions in " ++ commaList exits) payload)

/-! ## Exit by age -/

/-- The price at which a position is closed for its age: the market's, or the entry price. -/
def agedPrice (m : Market α) (p : Position α) : α :=
  match m.prices.lookup p.asset with
  | none => p.entryPrice
  | some price => if price.isZero then p.entryPrice else price.value

/-- Whether a position has been open for a duration. -/
def isAged (m : Market α) (duration : Int) (p : Position α) : Except (Fault α) Bool := do
  match ← m.timestamp.elapsed? p.opened with
  | some age => pure (decide (duration ≤ age))
  | none => pure false

/-- Closes a position for its age, at the market price or else at its entry price. -/
def whenAged (m : Market α) (duration : Int) (p : Position α) : Except (Fault α) (Option α) := do
  let isDue ← isAged m duration p
  pure (if isDue then some (agedPrice m p) else none)

/-- Closes positions that have been open for a duration in milliseconds. -/
def timeExit (b : Block α) (m : Market α) : Action α (Outcome α) := do
  let milliseconds ← b.positive "duration" (some 86400000.0)
  let positions := b.assetPositions (← get)
  if positions.isEmpty then pure (.idle "No positions to check for time exit" [])
  else
    let duration ← Duration.ofMilliseconds (.real milliseconds)
    let exits ← closeWhere m (whenAged m duration) positions
    let payload := [("exits", Value.texts exits)]
    if exits.isEmpty then
      pure (.idle ("Time exit not triggered (duration: " ++ Scalar.fixed 0 milliseconds ++ "ms)")
        payload)
    else pure (.didFire ("Time exit triggered: exited positions in " ++ commaList exits) payload)

/-! ## Exit by condition -/

/-- Whether a position meets a condition at a price. -/
def meets (c : ExitCondition α) (p : Position α) (price : Num α) : Except (Fault α) Bool := do
  let observed ← match c.measure with
    | .price => pure price
    | .profit => do pure (Num.real (← changePercent p price.value))
    | .loss => do pure (Num.real (-(← changePercent p price.value)))
  pure (c.comparator.holds observed (.real c.threshold))

/-- Closes positions that meet a written condition. -/
def conditionalExit (b : Block α) (m : Market α) : Action α (Outcome α) := do
  let condition ← b.text "condition"
  let some parsed := ExitCondition.read? condition
    | throw (.rejected (.unsupportedExitCondition condition))
  let positions := b.assetPositions (← get)
  if positions.isEmpty then
    pure (.idle "No positions to check for conditional exit" [("condition", .text condition)])
  else
    let exits ← closeWhere m (atMarket m (meets parsed)) positions
    let payload := [("exits", Value.texts exits), ("condition", .text condition)]
    if exits.isEmpty then pure (.idle ("Conditional exit not met: " ++ condition) payload)
    else
      pure (.didFire ("Conditional exit triggered: exited positions in " ++ commaList exits)
        payload)

end StrategyLab.Block
