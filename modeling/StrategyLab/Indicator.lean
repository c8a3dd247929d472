/-
Technical indicators over the prices seen so far in a run, the latest price last. An indicator
has no value while there are too few prices.
-/
import StrategyLab.Number.Summation
import StrategyLab.Text.Character

namespace StrategyLab

/-- The supported indicators. -/
inductive Indicator where
  /-- The relative strength of rises against falls. -/
  | strength
  /-- The mean of the last prices. -/
  | movingAverage
  /-- The lower of the two bands around the moving average. -/
  | lowerBand
  /-- The distance of a fast from a slow weighted mean. -/
  | convergence
  deriving Repr, DecidableEq, Inhabited

/-- Why an indicator cannot be computed. -/
inductive IndicatorFault where
  /-- A period of zero has no weight. -/
  | zeroPeriod
  /-- The window or the weight is out of range. -/
  | windowOutOfRange
  /-- The window does not fit in a word of 64 bits. -/
  | windowTooLarge
  /-- No indicator has this name. -/
  | unsupported (name : String)
  deriving Repr, DecidableEq, Inhabited

namespace Indicator

variable {α : Type} [Scalar α]

/-- The written name. -/
def name : Indicator → String
  | strength => "RSI"
  | movingAverage => "MA"
  | lowerBand => "BB"
  | convergence => "MACD"

/-- The indicator with a name in upper case. -/
def ofName? (s : String) : Option Indicator :=
  [strength, movingAverage, lowerBand, convergence].find? (·.name == s)

/-! ## Relative strength -/

/-- The changes from each price to the next. -/
def changes : List α → List α
  | x :: y :: rest => (y - x) :: changes (y :: rest)
  | _ => []

/-- The rises among the changes, zero for a fall. -/
def rises (deltas : List α) : List α := deltas.map (Scalar.greatest · 0.0)

/-- The falls among the changes, as positive numbers, zero for a rise. -/
def falls (deltas : List α) : List α := deltas.map fun d => -(Scalar.least d 0.0)

/-- The share of rises in all movement, in percent, each weighted by `1 / period`. Without falls
it is 100, without any movement 50. -/
def relativeStrength (prices : List α) (period : Int) :
    Except IndicatorFault (Option α) :=
  if prices.length < 2 then .ok none
  else if period = 0 then .error .zeroPeriod
  else
    let share : α := 1.0 / Scalar.ofInt period
    if ¬ (0.0 < share ∧ share ≤ 1.0) then .error .windowOutOfRange
    else
      let weight := Sample.weightOfCentre ((1.0 - share) / share)
      let deltas := changes prices
      let gain := Sample.weightedMean weight (rises deltas)
      let loss := Sample.weightedMean weight (falls deltas)
      if loss == 0.0 then .ok (some (if 0.0 < gain then 100.0 else 50.0))
      else .ok (some (100.0 - 100.0 / (1.0 + gain / loss)))

/-! ## The other indicators -/

/-- The mean of the last `period` prices, which are counted in a word of 64 bits. -/
def meanOfLast (prices : List α) (period : Int) : Except IndicatorFault (Option α) :=
  if prices.isEmpty then .ok none
  else if period < 1 then .error .windowOutOfRange
  else if Int.pow 2 63 ≤ period then .error .windowTooLarge
  else .ok (some (Sample.rollingMean period.toNat prices))

/-- The prices that a period reaches back to: the last `period` ones, all for zero; a negative
period leaves out the first ones. -/
def reachedBack (prices : List α) (period : Int) : List α :=
  if 0 < period then prices.drop (prices.length - period.toNat)
  else prices.drop (-period).toNat

/-- The mean of the last `period` prices less `width` deviations. -/
def bandBelow (prices : List α) (period : Int) (width : α) : Option α :=
  if prices.isEmpty then none
  else
    let window := reachedBack prices period
    let spread := if 1 < window.length then Sample.deviation window else 0.0
    some (Sample.mean window - width * spread)

/-- The weighted mean that spans a number of prices. -/
def spanMean (prices : List α) (span : Int) : Except IndicatorFault α :=
  if span < 1 then .error .windowOutOfRange
  else
    let centre : α := (Scalar.ofInt span - 1.0) / 2.0
    .ok (Sample.weightedMean (Sample.weightOfCentre centre) prices)

/-- The distance of the fast weighted mean from the slow one. -/
def meanDistance (prices : List α) (fast slow : Int) : Except IndicatorFault (Option α) :=
  if prices.length < 2 then .ok none
  else do
    let f ← spanMean prices fast
    let s ← spanMean prices slow
    pure (some (f - s))

/-- The value of an indicator at the last price. -/
def value (indicator : Indicator) (prices : List α) (period : Int) :
    Except IndicatorFault (Option α) :=
  match indicator with
  | strength => relativeStrength prices period
  | movingAverage => meanOfLast prices period
  | lowerBand => .ok (bandBelow prices period 2.0)
  | convergence => meanDistance prices 12 26

/-- The value of the indicator with a name in any case. -/
def valueByName (name : String) (prices : List α) (period : Int) :
    Except IndicatorFault (Option α) :=
  match ofName? (Text.upper name) with
  | some indicator => indicator.value prices period
  | none => .error (.unsupported name)

end Indicator

end StrategyLab
