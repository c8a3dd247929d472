/-
Exact arithmetic with infinities and an undefined value: the rational numbers, extended as binary
floating point extends its finite numbers, but without rounding and with one zero. Finite scalars
compute as rational numbers do (`Extended.embeds`), whatever a division by zero is taken to give
(`Extended.dividing_embeds`), and a comparison with the undefined value fails.

`Scalar.Ordered` is what an argument about finite scalars of any kind needs of their order.
-/
import StrategyLab.Proofs.Number.Exact

namespace StrategyLab

/-- A rational number, an infinity, or the undefined value. -/
inductive Extended where
  | finite (q : ℚ)
  | infinite (isNegative : Bool)
  | undefined
  deriving DecidableEq

namespace Extended

/-! ## Arithmetic -/

protected def neg : Extended → Extended
  | finite p => finite (-p)
  | infinite b => infinite (!b)
  | undefined => undefined

protected def add : Extended → Extended → Extended
  | finite p, finite q => finite (p + q)
  | finite _, infinite b | infinite b, finite _ => infinite b
  | infinite a, infinite b => if a = b then infinite a else undefined
  | _, _ => undefined

protected def mul : Extended → Extended → Extended
  | finite p, finite q => finite (p * q)
  | finite p, infinite b | infinite b, finite p => if p = 0 then undefined else infinite (b != decide (p < 0))
  | infinite a, infinite b => infinite (a != b)
  | _, _ => undefined

protected def div : Extended → Extended → Extended
  | finite p, finite q =>
    if q ≠ 0 then finite (p / q) else if p = 0 then undefined else infinite (decide (p < 0))
  | finite _, infinite _ => finite 0
  | infinite a, finite q => infinite (a != decide (q < 0))
  | _, _ => undefined

/-- Strictly smaller; it fails if one side is undefined. -/
def less : Extended → Extended → Bool
  | finite p, finite q => decide (p < q)
  | finite _, infinite b => !b
  | infinite a, finite _ => a
  | infinite a, infinite b => a && !b
  | _, _ => false

/-- Equal and defined. -/
def equal (x y : Extended) : Bool := decide (x = y) && decide (x ≠ undefined)

instance : Add Extended := ⟨Extended.add⟩
instance : Neg Extended := ⟨Extended.neg⟩
instance : Sub Extended := ⟨fun x y => Extended.add x (Extended.neg y)⟩
instance : Mul Extended := ⟨Extended.mul⟩
instance : Div Extended := ⟨Extended.div⟩
instance : LT Extended := ⟨fun x y => less x y = true⟩
instance : LE Extended := ⟨fun x y => (less x y || equal x y) = true⟩
instance : BEq Extended := ⟨equal⟩
instance : OfScientific Extended := ⟨fun m s e => finite (OfScientific.ofScientific m s e)⟩

variable [ExactArithmetic]

instance : Scalar Extended where
  decideLt x y := inferInstanceAs (Decidable (less x y = true))
  decideLe x y := inferInstanceAs (Decidable ((less x y || equal x y) = true))
  ofInt? n := some (finite n)
  rational?
    | finite q => some q
    | _ => none
  isFinite
    | finite _ => true
    | _ => false
  isSigned
    | finite q => decide (q < 0)
    | infinite b => b
    | undefined => false
  infinity := infinite false
  undefined := undefined
  sqrt
    | finite q => if q < 0 then undefined else finite (ExactArithmetic.sqrt q)
    | infinite b => if b then undefined else infinite b
    | undefined => undefined
  successor
    | finite q => finite (ExactArithmetic.successor q)
    | x => x
  text
    | finite q => ExactArithmetic.text q
    | infinite b => if b then "-inf" else "inf"
    | undefined => "nan"

/-! ## Finite scalars -/

omit [ExactArithmetic] in
@[simp] theorem finite_add (p q : ℚ) : finite p + finite q = finite (p + q) := rfl

omit [ExactArithmetic] in
@[simp] theorem finite_sub (p q : ℚ) : finite p - finite q = finite (p - q) := by
  show finite (p + -q) = _
  rw [sub_eq_add_neg]

omit [ExactArithmetic] in
@[simp] theorem finite_mul (p q : ℚ) : finite p * finite q = finite (p * q) := rfl

omit [ExactArithmetic] in
theorem finite_div (p : ℚ) {q : ℚ} (hq : q ≠ 0) : finite p / finite q = finite (p / q) := if_pos hq

omit [ExactArithmetic] in
@[simp] theorem finite_lt {p q : ℚ} : finite p < finite q ↔ p < q := decide_eq_true_iff

omit [ExactArithmetic] in
@[simp] theorem finite_le {p q : ℚ} : finite p ≤ finite q ↔ p ≤ q := by
  show (less (finite p) (finite q) || equal (finite p) (finite q)) = true ↔ _
  simp [less, equal, le_iff_lt_or_eq]

omit [ExactArithmetic] in
theorem literal_eq (m : Nat) (s : Bool) (e : Nat) :
    (OfScientific.ofScientific m s e : Extended) = finite (OfScientific.ofScientific m s e) := rfl

@[simp] theorem rational?_finite (q : ℚ) : Scalar.rational? (finite q) = some q := rfl

@[simp] theorem successor_finite (q : ℚ) : Scalar.successor (finite q) = finite (ExactArithmetic.successor q) := rfl

@[simp] theorem ofNat_eq (n : Nat) : (Scalar.ofNat n : Extended) = finite n := by
  show finite ((Int.ofNat n : Int) : ℚ) = _
  simp

/-- The finite scalars are the rational numbers. -/
theorem embeds : Scalar.Embeds finite where
  literal _ _ _ := rfl
  ofNat := ofNat_eq
  add := finite_add
  sub := finite_sub
  mul := finite_mul
  div p _ hq := finite_div p hq
  neg _ := rfl
  lt _ _ := finite_lt
  le _ _ := finite_le
  equal p q := by
    rw [Bool.eq_iff_iff]
    change equal (finite p) (finite q) = true ↔ _
    simp [equal]
  isFinite _ := rfl
  sqrt {q} hq := if_neg (not_lt.2 hq)

/-- Extended scalars with another choice of what a division by zero gives. -/
@[reducible] def dividing (atZero : Extended → Extended) : Scalar Extended :=
  { (inferInstance : Scalar Extended) with div := fun x y => if y = finite 0 then atZero x else x / y }

theorem dividing_embeds (atZero : Extended → Extended) : @Scalar.Embeds _ Extended (dividing atZero) finite :=
  letI := dividing atZero
  { embeds with
    div := fun p q hq => by
      change (if finite q = finite 0 then atZero (finite p) else finite p / finite q) = finite (p / q)
      rw [if_neg fun h => hq (finite.inj h), finite_div p hq] }

/-! ## What is finite -/

@[simp] theorem isFinite_finite (q : ℚ) : Scalar.isFinite (finite q) = true := rfl

@[simp] theorem isFinite_infinite (b : Bool) : Scalar.isFinite (infinite b) = false := rfl

@[simp] theorem isFinite_undefined : Scalar.isFinite undefined = false := rfl

@[simp] theorem isUndefined_finite (q : ℚ) : Scalar.isUndefined (finite q) = false := by
  change (!equal (finite q) (finite q)) = false
  simp [equal]

theorem isFinite_iff {x : Extended} : Scalar.isFinite x = true ↔ ∃ q, x = finite q := by
  cases x <;> simp

/-- No sum of an infinity or an undefined value is finite. -/
@[simp] theorem isFinite_add (x y : Extended) :
    Scalar.isFinite (x + y) = true ↔ Scalar.isFinite x = true ∧ Scalar.isFinite y = true := by
  change Scalar.isFinite (Extended.add x y) = true ↔ _
  cases x <;> cases y <;> simp only [Extended.add] <;> try split_ifs
  all_goals simp

@[simp] theorem isFinite_neg (x : Extended) : Scalar.isFinite (Extended.neg x) = true ↔ Scalar.isFinite x = true := by
  cases x <;> simp [Extended.neg]

@[simp] theorem isFinite_sub (x y : Extended) :
    Scalar.isFinite (x - y) = true ↔ Scalar.isFinite x = true ∧ Scalar.isFinite y = true := by
  change Scalar.isFinite (x + Extended.neg y) = true ↔ _
  rw [isFinite_add, isFinite_neg]

/-- No product with an infinity or an undefined value is finite, not even that of zero. -/
@[simp] theorem isFinite_mul (x y : Extended) :
    Scalar.isFinite (x * y) = true ↔ Scalar.isFinite x = true ∧ Scalar.isFinite y = true := by
  change Scalar.isFinite (Extended.mul x y) = true ↔ _
  cases x <;> cases y <;> simp only [Extended.mul] <;> try split_ifs
  all_goals simp

theorem isFinite_div (x : Extended) {q : ℚ} (hq : q ≠ 0) :
    Scalar.isFinite (x / finite q) = true ↔ Scalar.isFinite x = true := by
  change Scalar.isFinite (Extended.div x (finite q)) = true ↔ _
  cases x <;> simp [Extended.div, hq]

@[simp] theorem isFinite_literal (m : Nat) (s : Bool) (e : Nat) :
    Scalar.isFinite (OfScientific.ofScientific m s e : Extended) = true := rfl

@[simp] theorem isFinite_percent (x : Extended) : Scalar.isFinite (x / 100.0) = true ↔ Scalar.isFinite x = true := by
  rw [literal_eq]
  exact isFinite_div x (by norm_num)

omit [ExactArithmetic] in
theorem le_of_lt {x y : Extended} (h : x < y) : x ≤ y := by
  change (less x y || equal x y) = true
  rw [show less x y = true from h, Bool.true_or]

omit [ExactArithmetic] in
theorem not_undefined_lt (y : Extended) : ¬ undefined < y := by
  intro h
  cases h

/-! ## Signs -/

/-- Negative, by the exact comparison with a whole zero or with a literal one. -/
theorem isLess_zero {x : Extended} : (Num.real x).isLess (.whole 0) = true ↔ x < 0.0 := by
  cases x with
  | finite q =>
    have hzero : (0.0 : Extended) = finite 0 := by
      rw [literal_eq]
      norm_num
    rw [hzero, finite_lt]
    simp [Num.isLess, Num.compare?, Scalar.compareInt, compare_lt_iff_lt]
  | infinite b =>
    cases b with
    | true => exact iff_of_true rfl rfl
    | false => exact iff_of_false Bool.false_ne_true Bool.false_ne_true
  | undefined => exact iff_of_false Bool.false_ne_true Bool.false_ne_true

end Extended

/-! ## The order of finite scalars -/

/-- Finite scalars stand for rational numbers and compare as these do. -/
structure Scalar.Ordered (α : Type) [Scalar α] : Prop where
  rational (x : α) : isFinite x = true → ∃ q, rational? x = some q
  less {x y : α} {p q : ℚ} : rational? x = some p → rational? y = some q → (x < y ↔ p < q)

variable [ExactArithmetic]

theorem Scalar.ordered_exact : Scalar.Ordered ℚ where
  rational x _ := ⟨x, rfl⟩
  less hx hy := by
    cases hx
    cases hy
    rfl

theorem Extended.ordered : Scalar.Ordered Extended where
  rational x hx := by
    cases x with
    | finite q => exact ⟨q, rfl⟩
    | infinite b => cases hx
    | undefined => cases hx
  less {x y p q} hx hy := by
    cases x <;> cases hx
    cases y <;> cases hy
    exact finite_lt

end StrategyLab
