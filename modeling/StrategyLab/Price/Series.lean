/-
Price series of one token: samples in the order of time, no two at one time, each with a finite
positive price. The price between two samples lies on the straight line between them; outside of
the samples it is that of the nearest one.
-/
import StrategyLab.Fault

namespace StrategyLab

/-- A price at an instant. -/
structure Sample (α : Type) where
  time : Instant
  price : α
  deriving Repr, Inhabited

/-- The samples of a token. -/
abbrev Series (α : Type) := Array (Sample α)

namespace Series

variable {α : Type} [Scalar α]

/-! ## Building -/

/-- A price that can be used. -/
def isUsable (price : α) : Bool := Scalar.isFinite price && decide (0.0 < price)

/-- The order of samples in time; those without a time come last. -/
def comesBefore (a b : Sample α) : Bool :=
  match a.time, b.time with
  | .known s, .known t => s ≤ t
  | .missing, .known _ => false
  | _, .missing => true

/-- Of neighbours at one time only the last. -/
def keepLast : List (Sample α) → List (Sample α)
  | a :: b :: rest => if a.time = b.time then keepLast (b :: rest) else a :: keepLast (b :: rest)
  | rest => rest

/-- The series of samples in any order. Of several at one time the last usable one counts. -/
def ofSamples (samples : List (Sample α)) : Series α :=
  (keepLast ((samples.filter fun s => isUsable s.price).mergeSort comesBefore)).toArray

/-! ## Searching -/

/-- Where a condition stops holding, between two positions, by halving. -/
def search (holds : Nat → Bool) (low high : Nat) : Nat :=
  if low < high then
    let middle := low + (high - low) / 2
    if holds middle then search holds (middle + 1) high else search holds low middle
  else low
termination_by high - low
decreasing_by all_goals omega

/-- The nanosecond count of the sample at a position. -/
def countAt (s : Series α) (i : Nat) : Int :=
  match s[i]? with
  | some x => x.time.count
  | none => 0

/-- The first position whose sample is not before an instant. -/
def firstFrom (s : Series α) (target : Int) : Nat :=
  search (fun i => s.countAt i < target) 0 s.size

/-- The first position whose sample is after an instant. -/
def firstAfter (s : Series α) (target : Int) : Nat :=
  search (fun i => s.countAt i ≤ target) 0 s.size

/-! ## Prices -/

/-- A difference of two counts in 64 bits. -/
def difference (a b : Int) : Int := Int.bmod (a - b) (Nat.pow 2 64)

/-- The price on the line between two samples. -/
def interpolate (a b : Sample α) (target : Int) : α :=
  let ratio : α := Scalar.ofInt (difference target a.time.count) /
    Scalar.ofInt (difference b.time.count a.time.count)
  a.price + (b.price - a.price) * ratio

/-- The price at an instant. -/
def priceAt (s : Series α) (t : Instant) : Except (Fault α) α :=
  let target := t.count
  let i := s.firstFrom target
  match s[i]? with
  | none =>
    match s.back? with
    | some x => pure x.price
    | none => throw (.data .noSamples)
  | some x =>
    if x.time.count = target then pure x.price
    else if i = 0 then pure x.price
    else
      match s[i - 1]? with
      | some before => pure (interpolate before x target)
      | none => pure x.price

/-! ## Slices -/

/-- The samples of a range of time with one more on either side, for the line that enters and
the line that leaves the range. -/
def sliceAround (s : Series α) (start stop : Instant) : Series α :=
  let low := s.firstAfter start.count - 1
  let high := min (s.firstFrom stop.count + 1) s.size
  if low < high then s.extract low high
  else if stop.count < s.countAt 0 then s.extract 0 1
  else s.extract (s.size - 1) s.size

/-- How prices are thinned out: the last of every hour or day. -/
inductive Granularity where
  | hourly
  | daily
  deriving Repr, DecidableEq, Inhabited

namespace Granularity

/-- The written name. -/
def name : Granularity → String
  | hourly => "hourly"
  | daily => "daily"

/-- The granularity with a name. -/
def ofName? (s : String) : Option Granularity := [hourly, daily].find? (·.name == s)

/-- The length of a period. -/
def period : Granularity → Int
  | hourly => Instant.perHour
  | daily => Instant.perDay

end Granularity

/-- A sample moved to the beginning of its period. -/
def toPeriod (g : Granularity) (x : Sample α) : Sample α :=
  match x.time with
  | .known ns => { x with time := .known (ns.fdiv g.period * g.period) }
  | .missing => x

/-- The last sample of each period, at the beginning of the period. -/
def resample (g : Granularity) (s : Series α) : Series α :=
  (keepLast ((s.toList.filter fun x => x.time != .missing).map (toPeriod g))).toArray

/-- The written form: pairs of instant and price. -/
def toValue (s : Series α) : Value α :=
  .list (s.toList.map fun x => .list [.text x.time.text, .real x.price])

end Series

end StrategyLab
