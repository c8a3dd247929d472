/-
Entry blocks: they look at the market and fire when their condition holds. None of them touches
the account.
-/
import StrategyLab.Block.Outcome

namespace StrategyLab.Block

variable {α : Type} [Scalar α]

/-- Fires when the price of a token compares with a target as asked. -/
def priceTrigger (b : Block α) (m : Market α) : Except (Fault α) (Outcome α) := do
  let asset ← b.text "asset"
  let target ← b.positive "target_price" none
  let op ← b.comparator
  let current ← m.price asset
  let payload := [("current_price", .num current), ("target_price", Value.real target)]
  if op.holds current (.real target) then
    pure (.didFire ("Price trigger met: " ++ asset ++ " " ++ op.sign ++ " " ++ Scalar.text target)
      payload)
  else
    pure (.idle ("Price trigger not met: " ++ asset ++ " = " ++ Scalar.fixed 2 current.value)
      payload)

/-- Fires when a schedule holds at the instant. -/
def timeTrigger (b : Block α) (m : Market α) : Except (Fault α) (Outcome α) := do
  let schedule ← b.text "schedule"
  let payload := [("schedule", .text schedule)]
  match Cron.holds schedule m.timestamp with
  | .ok true => pure (.didFire "Time trigger executed: schedule matched" payload)
  | .ok false => pure (.idle "Time trigger not executed: schedule not matched" payload)
  | .error .zeroStep => throw (.cron .zeroStep)
  | .error cause => throw (.rejected (.badSchedule cause))

/-- The volume that is simulated for a price. -/
def syntheticVolume : Num α → Num α
  | .whole n => .whole (n * 1000000)
  | .real x => .real (x * 1000000.0)

/-- Fires when the simulated volume of a token reaches a minimum. -/
def volumeTrigger (b : Block α) (m : Market α) : Except (Fault α) (Outcome α) := do
  let asset ← b.text "asset"
  let required ← b.number "min_volume" (some 0.0)
  let volume := syntheticVolume (← m.price asset)
  let shown := asset ++ " volume " ++ Scalar.fixed 0 volume.value
  let payload := [("volume", .num volume)]
  if (Num.real required).isAtMost volume then
    pure (.didFire ("Volume trigger met: " ++ shown ++ " >= " ++ Scalar.text required) payload)
  else
    pure (.idle ("Volume trigger not met: " ++ shown ++ " < " ++ Scalar.text required) payload)

/-- Fires when an indicator compares with a target as asked; waits while it has no value. -/
def indicatorTrigger (b : Block α) (m : Market α) : Except (Fault α) (Outcome α) := do
  let asset ← b.text "asset"
  let name := Text.upper (← b.text "indicator")
  let indicator ← match Indicator.ofName? name with
    | some found => pure found
    | none => throw (.rejected (.unsupportedIndicator name))
  let target ← b.number "value" none
  let period ← Value.wholeOfNum (.real (← b.positive "period" (some 14.0)))
  let op ← b.comparator
  let _ ← m.price asset
  let found ← indicator.value ((m.history.lookup asset).getD []) period
  match found with
  | none => pure (.idle (name ++ " trigger waiting for price history") [("indicator", .text name)])
  | some x =>
    let payload := [("indicator", .text name), ("indicator_value", .real x),
      ("target_value", .real target)]
    let shown := Scalar.fixed 2 x ++ " " ++ op.sign ++ " " ++ Scalar.text target
    if op.holds (.real x) (.real target) then
      pure (.didFire (name ++ " trigger met: " ++ shown) payload)
    else pure (.idle (name ++ " trigger not met: " ++ shown) payload)

end StrategyLab.Block
