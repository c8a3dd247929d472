/-
Walk-forward windows: a strategy is judged on a training range and on the test range that follows
it. The windows have fixed lengths and advance by a fixed step as long as they fit; a range that
is too short for one window is split into seven parts of training and three of test.
-/
import StrategyLab.Number.Summation
import StrategyLab.Search.Parameter
import StrategyLab.Time.Reading
import StrategyLab.Value.Fields

namespace StrategyLab

/-- A window: training from `start` to `split`, test from there to `stop`. -/
structure Window where
  start : Int
  split : Int
  stop : Int
  deriving Repr, DecidableEq, Inhabited

/-- The lengths of windows in nanoseconds, and the degradation from which on a strategy counts as
overfitted. -/
structure WindowPlan (α : Type) where
  train : Int
  test : Int
  step : Int
  threshold : Num α
  train_pos : 0 < train
  test_pos : 0 < test
  step_pos : 0 < step

namespace Window

/-- The written form. -/
def toValue {α : Type} (w : Window) : Value α :=
  let at' (ns : Int) : Value α := .text (Instant.known ns).text
  .record [("train_start", at' w.start), ("train_end", at' w.split),
    ("test_start", at' w.split), ("test_end", at' w.stop)]

end Window

namespace WindowPlan

variable {α : Type} [Scalar α]

/-! ## Lengths -/

/-- Ninety days of training. -/
def defaultTrain : Num α := .whole 90

/-- Thirty days of test. -/
def defaultTest : Num α := .whole 30

/-- Steps of thirty days. -/
def defaultStep : Num α := .whole 30

/-- A strategy counts as overfitted above sixty percent. -/
def defaultThreshold : Num α := .real 60.0

/-- The plan with lengths in days, which have to be positive. -/
def ofDays (train test step threshold : Num α) : Except (Fault α) (WindowPlan α) := do
  let zero : Num α := .whole 0
  if train.isAtMost zero || test.isAtMost zero || step.isAtMost zero then
    throw (.request .windowLengths)
  let train ← Duration.ofDays train
  let test ← Duration.ofDays test
  let step ← Duration.ofDays step
  if h : 0 < train ∧ 0 < test ∧ 0 < step then
    pure
      { train, test, step, threshold, train_pos := h.1, test_pos := h.2.1, step_pos := h.2.2 }
  else throw (.request .windowLengths)

/-- The plan with the default lengths. -/
def default : WindowPlan α :=
  { train := 90 * Instant.perDay, test := 30 * Instant.perDay, step := 30 * Instant.perDay
    threshold := defaultThreshold, train_pos := by decide, test_pos := by decide
    step_pos := by decide }

/-- The plan given by its fields. -/
def ofFields (fields : Object α) : Except (Fault α) (WindowPlan α) :=
  ofDays (fields.numD "train_days" defaultTrain) (fields.numD "test_days" defaultTest)
    (fields.numD "step_days" defaultStep) (fields.numD "overfit_threshold" defaultThreshold)

/-! ## Windows -/

/-- A count that has to be in the range of instants. -/
def bounded (ns : Int) : Except TimeFault Int :=
  if Instant.inRange ns then .ok ns else .error .outOfRange

/-- The windows from a start on that end by a stop. -/
def windowsFrom (p : WindowPlan α) (stop start : Int) : Except TimeFault (List Window) := do
  let split ← bounded (start + p.train)
  let last ← bounded (split + p.test)
  if _h : start ≤ stop ∧ last ≤ stop then
    let _ ← bounded (start + p.step)
    let rest ← windowsFrom p stop (start + p.step)
    pure ({ start, split, stop := last } :: rest)
  else pure []
termination_by (stop - start + 1).toNat
decreasing_by
  have := p.step_pos
  omega

/-- The share of a short range that is used for training. -/
def trainShare : α := 0.7

/-- The single window of a short range. -/
def splitOf (start stop : Int) : Window :=
  let part := (Scalar.wholePart? (Scalar.ofInt (stop - start) * (trainShare : α))).getD 0
  { start, split := start + part, stop }

/-- The windows of a range of time. -/
def windows (p : WindowPlan α) (start stop : Instant) : Except (Fault α) (List Window) :=
  if stop.isAtMost start then throw (.request .windowOrder)
  else
    match start, stop with
    | .known a, .known b =>
      if !Instant.inRange (b - a) then throw (.time .outOfRange)
      else if !Instant.inRange (p.train + p.test) then throw (.request .windowsTooLong)
      else if b - a < p.train + p.test then pure [splitOf (α := α) a b]
      else do
        let found ← p.windowsFrom b a
        pure found
    | .known _, .missing => throw (.time .outOfRange)
    | .missing, _ => throw (.request .missingEnds)

/-- Whether a degradation is above the threshold. -/
def isOverfit (p : WindowPlan α) (degradation : Num α) : Bool := p.threshold.isLess degradation

end WindowPlan

end StrategyLab

/-! ## Degradation

Degradation: by how many percent the scores of a strategy are worse out of sample than in sample,
on average over the objectives. Only objectives with both scores count, with a finite score that
is not zero in sample and a finite one out of sample; an improvement counts as zero. -/

namespace StrategyLab.Degradation

variable {α : Type} [Scalar α]

/-- The scores of an objective in sample and out of sample. -/
structure Pair (α : Type) where
  name : String
  inside : α
  outside : α
  deriving Repr, Inhabited

/-- Whether a pair of scores counts. -/
def counts (p : Pair α) : Bool :=
  !(p.inside == 0.0) && Scalar.isFinite p.inside && Scalar.isFinite p.outside

/-- The change for the worse in percent of the magnitude in sample. -/
def change (p : Pair α) : α :=
  let lost := if Objective.isMaximized p.name then p.inside - p.outside else p.outside - p.inside
  lost / Scalar.magnitude p.inside * 100.0

/-- The change for the worse in percent, zero for an improvement. -/
def deterioration (p : Pair α) : α := Scalar.greatest 0.0 (change p)

/-- The mean of the terms, zero for no terms. -/
def average (xs : List α) : α :=
  if xs.isEmpty then 0.0 else Sample.sumLeft xs / Scalar.ofNat xs.length

/-- The degradation over pairs of scores. -/
def ofPairs (ps : List (Pair α)) : α := average ((ps.filter counts).map deterioration)

/-- The scores that both of two objects have. -/
def pairs (inside outside : Object α) : Except (ValueFault α) (List (Pair α)) :=
  inside.filterMapM fun (key, v) =>
    match v, Object.find? outside key with
    | .null, _ | _, none | _, some .null => pure none
    | v, some w => do
      let x ← v.toReal
      let y ← w.toReal
      pure (some { name := key.shown, inside := x, outside := y })

/-- The degradation from scores in sample to scores out of sample. -/
def ofScores (inside outside : Object α) : Except (ValueFault α) α := do
  let found ← pairs inside outside
  pure (ofPairs found)

end StrategyLab.Degradation
