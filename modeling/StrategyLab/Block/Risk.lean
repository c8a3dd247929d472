/-
Risk blocks: they report on sizes, limits and the distance from a target allocation. None of
them touches the account.
-/
import StrategyLab.Block.Outcome

namespace StrategyLab.Block

variable {α : Type} [Scalar α]

/-- Reports how positions are sized. -/
def positionSizing (b : Block α) : Except (Fault α) (Outcome α) := do
  let method := ((b.param? "method").getD (.text "fixed_percentage")).shown
  let value ← b.positive "value" (some 10.0)
  let largest ← match b.param? "max_position" with
    | none | some .null => pure Value.null
    | some v => do
      let x ← v.toReal
      pure (Value.real x)
  pure (.didFire ("Position sizing set: " ++ method ++ " (" ++ Scalar.text value ++ "%)")
    [("method", .text method), ("value", .real value), ("max_position", largest)])

/-- The limits that can be set. -/
def limitNames : List String :=
  ["max_drawdown", "max_position_size", "max_leverage", "max_daily_loss"]

/-- Reports the limits as they are written. -/
def riskLimits (b : Block α) : Outcome α :=
  .didFire "Risk limits set" (limitNames.map fun name => (name, Value.ofOption (b.param? name)))

/-- A token whose share is off its target. -/
structure Deviation (α : Type) where
  token : String
  currentPercent : α
  targetPercent : α
  /-- The value to buy, or to sell if negative. -/
  move : α

namespace Deviation

/-- The written form. -/
def toValue (d : Deviation α) : Value α :=
  .record [("token", .text d.token), ("current_pct", .real d.currentPercent),
    ("target_pct", .real d.targetPercent), ("delta_usd", .real d.move)]

/-- The move as messages show it. -/
def shown (d : Deviation α) : String := Scalar.signedFixed 2 d.move ++ " " ++ d.token

end Deviation

/-- The tokens of an allocation whose share of the total is off by more than a threshold. -/
def deviations (m : Market α) (l : Ledger α) (total threshold : α) :
    List (Key α × Value α) → Except (Fault α) (List (Deviation α))
  | [] => pure []
  | (key, target) :: rest => do
    let token := key.shown
    let value := l.balance token * m.prices.priceOr0 token
    let share := value / total * 100.0
    let targetPercent ← target.toReal
    let more ← deviations m l total threshold rest
    if threshold < Scalar.magnitude (share - targetPercent) then
      pure ({ token, currentPercent := share, targetPercent,
              move := total * targetPercent / 100.0 - value } :: more)
    else pure more

/-- Reports the moves that would reach a target allocation. -/
def rebalancing (b : Block α) (m : Market α) (l : Ledger α) : Except (Fault α) (Outcome α) := do
  let allocation ← match b.param? "target_allocation" with
    | some (.object fields) =>
      if fields.isEmpty then throw (.rejected (.badAllocation b.displayName)) else pure fields
    | _ => throw (.rejected (.badAllocation b.displayName))
  let threshold ← b.number "threshold" (some 5.0)
  let method := (b.param? "method").getD (.text "threshold")
  let total := l.equity m.prices
  if total ≤ 0.0 then pure (.idle "Rebalancing skipped: portfolio has no value" [])
  else
    let found ← deviations m l total threshold allocation
    let payload := [("changes", .list (found.map Deviation.toValue)), ("method", method),
      ("threshold", Value.real threshold)]
    if found.isEmpty then pure (.idle "Rebalancing not needed (within threshold)" payload)
    else
      pure (.didFire ("Rebalancing needed: " ++ commaList (found.map Deviation.shown)) payload)

end StrategyLab.Block
