/-
The numbers a simulation computes with. Every formula of this library is written over a type `α`
of scalars, so that the same definition runs on binary floating point and can be read in exact
arithmetic. A scalar may be infinite or undefined (NaN); no comparison holds of an undefined one.

`Num` is a number as a strategy or a caller writes it: a whole number of any size, or a scalar.
The two are told apart because they print differently and compare exactly.
-/

namespace StrategyLab

/-- A number cut to a range; the lower end wins if the range is empty. -/
def clampBy {β : Type} (isLess : β → β → Bool) (x low high : β) : β :=
  let cut := if isLess x high then x else high
  if isLess low cut then cut else low

/-- Arithmetic, comparison and text of the scalars a simulation computes with. -/
class Scalar (α : Type) extends Add α, Sub α, Mul α, Div α, Neg α, LT α, LE α, BEq α,
    OfScientific α where
  /-- Strict order is decidable; it fails when either side is undefined. -/
  decideLt : DecidableLT α
  /-- Weak order is decidable; it fails when either side is undefined. -/
  decideLe : DecidableLE α
  /-- The scalar nearest to a whole number, none when the number is out of range. -/
  ofInt? : Int → Option α
  /-- The rational number that a finite scalar stands for, none for the others. -/
  rational? : α → Option Rat
  /-- Neither infinite nor undefined. -/
  isFinite : α → Bool
  /-- Carries a minus sign (so does a negative zero). -/
  isSigned : α → Bool
  /-- Positive infinity. -/
  infinity : α
  /-- The undefined value. -/
  undefined : α
  /-- The square root. -/
  sqrt : α → α
  /-- The next larger scalar, for a positive one. -/
  successor : α → α
  /-- The shortest decimal text that reads back as the same scalar. -/
  text : α → String

namespace Scalar

variable {α : Type} [Scalar α]

instance : DecidableLT α := Scalar.decideLt
instance : DecidableLE α := Scalar.decideLe
instance : Inhabited α := ⟨0.0⟩

/-- Negative infinity. -/
def negativeInfinity : α := -infinity

/-- The scalar nearest to a whole number, infinite when it is out of range. -/
def ofInt (n : Int) : α :=
  match ofInt? n with
  | some x => x
  | none => if n < 0 then negativeInfinity else infinity

/-- The scalar nearest to a count. -/
def ofNat (n : Nat) : α := ofInt (Int.ofNat n)

/-- Undefined, that is, unequal to itself. -/
def isUndefined (x : α) : Bool := !(x == x)

/-- The distance from zero. -/
def magnitude (x : α) : α := if x < 0.0 then -x else x

/-- The first of two scalars unless the second is smaller. -/
def least (x y : α) : α := if y < x then y else x

/-- The first of two scalars unless the second is larger. -/
def greatest (x y : α) : α := if x < y then y else x

/-- A scalar cut to a range. -/
def clamp (x low high : α) : α := clampBy (fun x y => decide (x < y)) x low high

/-- The whole part, toward zero; none for infinite and undefined scalars. -/
def wholePart? (x : α) : Option Int :=
  (rational? x).map fun q => q.num.tdiv q.den

/-- Exact comparison with a whole number: an ordering unless `x` is undefined. -/
def compareInt (x : α) (n : Int) : Option Ordering :=
  match rational? x with
  | some q => some (compare q.num (n * q.den))
  | none => if x < 0.0 then some .lt else if 0.0 < x then some .gt else none

end Scalar

/-- A number as written: a whole number, or a scalar. -/
inductive Num (α : Type) where
  /-- A whole number of any size. -/
  | whole (n : Int)
  /-- A scalar. -/
  | real (x : α)
  deriving Repr, Inhabited

namespace Num

variable {α : Type} [Scalar α]

/-- The scalar nearest to a number. -/
def value : Num α → α
  | whole n => Scalar.ofInt n
  | real x => x

/-- The scalar nearest to a number, none when a whole number is out of range. -/
def value? : Num α → Option α
  | whole n => Scalar.ofInt? n
  | real x => some x

/-- Exact comparison: an ordering unless one side is undefined. -/
def compare? : Num α → Num α → Option Ordering
  | whole m, whole n => some (compare m n)
  | real x, whole n => Scalar.compareInt x n
  | whole m, real y => (Scalar.compareInt y m).map Ordering.swap
  | real x, real y =>
    if x < y then some .lt else if y < x then some .gt else if x == y then some .eq else none

/-- Strictly smaller. -/
def isLess (x y : Num α) : Bool := compare? x y == some .lt

/-- Smaller or equal. -/
def isAtMost (x y : Num α) : Bool :=
  match compare? x y with
  | some .lt | some .eq => true
  | _ => false

/-- Equal in value. -/
def isEqual (x y : Num α) : Bool := compare? x y == some .eq

/-- Zero, with either sign. -/
def isZero (x : Num α) : Bool := isEqual x (whole 0)

/-- A number cut to a range. -/
def clamp (x low high : Num α) : Num α := clampBy isLess x low high

/-- The decimal text of a number. -/
def text : Num α → String
  | whole n => toString n
  | real x => Scalar.text x

@[simp] theorem value_real (x : α) : (real x).value = x := rfl

@[simp] theorem value?_real (x : α) : (real x).value? = some x := rfl

end Num

end StrategyLab
