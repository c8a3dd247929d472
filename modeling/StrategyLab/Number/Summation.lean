/-
Sums, means and deviations of a sample. Long sums are taken pairwise: up to 128 terms in eight
lanes that are added up at the end, beyond that as the sum of two halves. In exact arithmetic
every order of summation gives the same result.
-/
import StrategyLab.Number.Scalar

namespace StrategyLab.Sample

variable {α : Type} [Scalar α]

/-! ## Sums -/

/-- The sum from left to right, onto a start. -/
def sumOnto (start : α) (xs : List α) : α := xs.foldl (· + ·) start

/-- The sum from left to right. -/
def sumLeft : List α → α
  | [] => 0.0
  | x :: xs => sumOnto x xs

/-- Eight running sums. -/
structure Lanes (α : Type) where
  a : α
  b : α
  c : α
  d : α
  e : α
  f : α
  g : α
  h : α

/-- Adds full groups of eight to the lanes, then adds the lanes up and the rest onto them. -/
def addGroups (r : Lanes α) : List α → α
  | a :: b :: c :: d :: e :: f :: g :: h :: rest =>
    addGroups ⟨r.a + a, r.b + b, r.c + c, r.d + d, r.e + e, r.f + f, r.g + g, r.h + h⟩ rest
  | rest => sumOnto (((r.a + r.b) + (r.c + r.d)) + ((r.e + r.f) + (r.g + r.h))) rest

/-- The sum in eight lanes; fewer than eight terms are added from left to right. -/
def sumLanes : List α → α
  | a :: b :: c :: d :: e :: f :: g :: h :: rest => addGroups ⟨a, b, c, d, e, f, g, h⟩ rest
  | rest => sumLeft rest

/-- Where a long sum is split: at the half, rounded down to a multiple of eight. -/
def splitPoint (n : Nat) : Nat := n / 2 - n / 2 % 8

/-- The pairwise sum. -/
def sum (xs : List α) : α :=
  if xs.length ≤ 128 then sumLanes xs
  else sum (xs.take (splitPoint xs.length)) + sum (xs.drop (splitPoint xs.length))
termination_by xs.length
decreasing_by
  all_goals simp only [List.length_take, List.length_drop, splitPoint]; omega

/-! ## Means and deviations -/

/-- The arithmetic mean; undefined for an empty sample. -/
def mean (xs : List α) : α :=
  if xs.isEmpty then Scalar.undefined else sum xs / Scalar.ofNat xs.length

/-- The standard deviation over the whole sample. -/
def deviation (xs : List α) : α :=
  let m := mean xs
  Scalar.sqrt (mean (xs.map fun x => (x - m) * (x - m)))

/-! ## Rolling mean -/

/-- A running sum of which terms come and go, each direction with its own compensation for
rounding, and the length of the run of equal terms at its end. -/
structure RunningSum (α : Type) where
  total : α
  added : α
  removed : α
  last : Option α
  equalRun : Nat

namespace RunningSum

/-- The sum of no terms. -/
def empty : RunningSum α := ⟨0.0, 0.0, 0.0, none, 0⟩

/-- Takes a term out of the sum. -/
def remove (s : RunningSum α) (x : α) : RunningSum α :=
  let y := -x - s.removed
  let t := s.total + y
  { s with total := t, removed := t - s.total - y }

/-- Adds a term to the sum. -/
def add (s : RunningSum α) (x : α) : RunningSum α :=
  let y := x - s.added
  let t := s.total + y
  { s with
    total := t
    added := t - s.total - y
    last := some x
    equalRun := match s.last with
      | some z => if z == x then s.equalRun + 1 else 1
      | none => 1 }

end RunningSum

/-- Goes on with the sum over the last `width` terms; `leaving` are the terms that have still to
leave, the first one first, and `count` is the number of terms seen. -/
def rollFrom (width : Nat) (s : RunningSum α) (count : Nat) (leaving : List α) :
    List α → RunningSum α
  | [] => s
  | x :: rest =>
    if count < width then rollFrom width (s.add x) (count + 1) leaving rest
    else
      match leaving with
      | [] => rollFrom width (s.add x) (count + 1) [] rest
      | old :: later => rollFrom width ((s.remove old).add x) (count + 1) later rest

/-- The mean of the last `width` terms, or of all if there are fewer, kept up term by term. A run
of equal terms has exactly that term as its mean. -/
def rollingMean (width : Nat) (xs : List α) : α :=
  let s := rollFrom width RunningSum.empty 0 xs xs
  let count := min xs.length width
  match s.last with
  | some x => if count ≤ s.equalRun then x else s.total / Scalar.ofNat count
  | none => Scalar.undefined

/-! ## Weighted mean -/

/-- One step of the exponentially weighted mean: the old mean keeps the weight `1 - weight`. -/
def weighStep (weight mean x : α) : α :=
  let old := 1.0 - weight
  if mean == x then mean else (old * mean + weight * x) / (old + weight)

/-- The exponentially weighted mean, started at the first term. -/
def weightedMean (weight : α) : List α → α
  | [] => Scalar.undefined
  | x :: xs => xs.foldl (weighStep weight) x

/-- The weight of a new term, given the centre of mass of the weights. -/
def weightOfCentre (centre : α) : α := 1.0 / (1.0 + centre)

end StrategyLab.Sample
