/-
Numbers on a line. Numbers that are not negative compare as their places on a line do, whether they are
written as whole numbers or as scalars, and doubling a number that is not negative moves it up
(`Num.Doubling`): in exact arithmetic (`Num.doubling_exact`) and with infinities
(`Num.doubling_extended`).
-/
import StrategyLab.Proofs.Number.Extended

namespace StrategyLab

variable {α : Type} [Scalar α]

/-! ## Numbers that are not negative -/

/-- Zero or more. -/
def Num.NonNegative (x : Num α) : Prop := (whole 0).isAtMost x = true

/-- Numbers that are not negative stand in line, and keep their places when powers of two multiply one
of them. -/
structure Num.Doubling (α : Type) [Scalar α] : Prop where
  total {x y : Num α} : x.NonNegative → y.NonNegative → x.isLess y = false → y.isAtMost x = true
  trans {x y z : Num α} : x.isAtMost y = true → y.isAtMost z = true → x.isAtMost z = true
  kept {x a : α} {m : Nat} : (real x).NonNegative → Scalar.ofInt? (2 ^ m) = some a → (real (x * a)).NonNegative
  grows {x a b : α} {m n : Nat} : (real x).NonNegative → m ≤ n → Scalar.ofInt? (2 ^ m) = some a →
    Scalar.ofInt? (2 ^ n) = some b → (real (x * a)).isAtMost (real (x * b)) = true

namespace Num

theorem isAtMost_of_isLess {x y : Num α} (h : x.isLess y = true) : x.isAtMost y = true := by
  unfold isAtMost
  rw [eq_of_beq h]

theorem whole_isAtMost {m n : Int} : (whole m : Num α).isAtMost (whole n) = true ↔ m ≤ n := by
  have hcompare : (whole m : Num α).compare? (whole n) = some (compare m n) := rfl
  unfold isAtMost
  rw [hcompare]
  rcases lt_trichotomy m n with h | h | h
  · rw [compare_lt_iff_lt.2 h]
    exact iff_of_true rfl h.le
  · rw [compare_eq_iff_eq.2 h]
    exact iff_of_true rfl h.le
  · rw [compare_gt_iff_gt.2 h]
    exact iff_of_false Bool.false_ne_true (not_le.2 h)

theorem Doubling.refl (hα : Doubling α) {x : Num α} (hx : x.NonNegative) : x.isAtMost x = true := by
  cases h : x.isLess x with
  | true => exact isAtMost_of_isLess h
  | false => exact hα.total hx hx h

end Num

/-! ## Exact arithmetic -/

section

variable [ExactArithmetic]

theorem Num.nonNegative_exact {x : Num ℚ} : x.NonNegative ↔ 0 ≤ x.value := by
  unfold NonNegative
  rw [isAtMost_iff, value_whole, Int.cast_zero]

theorem Num.doubling_exact : Num.Doubling ℚ where
  total {x y} _ _ h := by
    rw [isAtMost_iff]
    exact not_lt.1 fun hlt => Bool.false_ne_true (h.symm.trans ((isLess_iff x y).2 hlt))
  trans {x y z} h h' := by
    rw [isAtMost_iff] at h h' ⊢
    exact h.trans h'
  kept {x a m} hx ha := by
    cases ha
    rw [nonNegative_exact] at hx ⊢
    exact mul_nonneg hx (by positivity)
  grows {x a b m n} hx hmn ha hb := by
    cases ha
    cases hb
    rw [nonNegative_exact] at hx
    rw [isAtMost_iff]
    refine mul_le_mul_of_nonneg_left ?_ hx
    exact_mod_cast pow_le_pow_right₀ (by norm_num : (1 : Int) ≤ 2) hmn

/-! ## Exact arithmetic with infinities -/

open Extended

theorem Extended.compare_finite (p q : ℚ) :
    (Num.real (finite p)).compare? (.real (finite q)) = some (compare p q) := by
  unfold Num.compare?
  dsimp only
  simp only [finite_lt]
  rcases lt_trichotomy p q with h | h | h
  · rw [if_pos h, compare_lt_iff_lt.2 h]
  · rw [if_neg (by rw [h]; exact lt_irrefl q), if_neg (by rw [h]; exact lt_irrefl q), compare_eq_iff_eq.2 h, if_pos]
    rw [h]
    exact (show equal (finite q) (finite q) = true by simp [equal])
  · rw [if_neg (not_lt.2 h.le), if_pos h, compare_gt_iff_gt.2 h]

theorem Extended.compareInt_eq (x : Extended) (n : Int) :
    Scalar.compareInt x n = (Num.real x).compare? (.real (finite n)) := by
  cases x with
  | finite q => exact (Scalar.compareInt_exact q n).trans (compare_finite q n).symm
  | infinite b => cases b <;> rfl
  | undefined => rfl

theorem Extended.compare_swap (x y : Extended) :
    ((Num.real x).compare? (.real y)).map Ordering.swap = (Num.real y).compare? (.real x) := by
  cases x with
  | finite p =>
    cases y with
    | finite q =>
      rw [compare_finite, compare_finite, Option.map_some]
      exact congrArg some Std.OrientedOrd.eq_swap.symm
    | infinite b => cases b <;> rfl
    | undefined => rfl
  | infinite a =>
    cases y with
    | finite q => cases a <;> rfl
    | infinite b => cases a <;> cases b <;> rfl
    | undefined => cases a <;> rfl
  | undefined => cases y <;> rfl

/-- Numbers compare by value, infinite ones included. -/
theorem Num.compare?_extended (x y : Num Extended) : x.compare? y = (real x.value).compare? (real y.value) := by
  cases x with
  | whole m =>
    cases y with
    | whole n => exact (compare?_exact (whole m) (whole n)).trans (compare_finite m n).symm
    | real y =>
      show (Scalar.compareInt y m).map Ordering.swap = _
      rw [compareInt_eq]
      exact compare_swap y (finite m)
  | real x =>
    cases y with
    | whole n => exact compareInt_eq x n
    | real y => rfl

theorem Num.isLess_extended (x y : Num Extended) : x.isLess y = true ↔ x.value < y.value := by
  unfold isLess
  rw [compare?_extended]
  unfold compare?
  dsimp only
  split_ifs with h <;> simp [h]

theorem Num.isAtMost_extended (x y : Num Extended) : x.isAtMost y = true ↔ x.value ≤ y.value := by
  unfold isAtMost
  rw [compare?_extended]
  cases x.value <;> cases y.value
  case finite.finite p q =>
    rw [compare_finite, finite_le]
    rcases lt_trichotomy p q with h | h | h
    · rw [compare_lt_iff_lt.2 h]; simp [h.le]
    · rw [compare_eq_iff_eq.2 h]; simp [h.le]
    · rw [compare_gt_iff_gt.2 h]; simp [h]
  case infinite.infinite a b =>
    cases a <;> cases b
    case false.true => exact iff_of_false Bool.false_ne_true Bool.false_ne_true
    all_goals exact iff_of_true rfl rfl
  case finite.infinite p b =>
    cases b
    · exact iff_of_true rfl rfl
    · exact iff_of_false Bool.false_ne_true Bool.false_ne_true
  case infinite.finite b p =>
    cases b
    · exact iff_of_false Bool.false_ne_true Bool.false_ne_true
    · exact iff_of_true rfl rfl
  case infinite.undefined b => cases b <;> exact iff_of_false Bool.false_ne_true Bool.false_ne_true
  case undefined.infinite b => cases b <;> exact iff_of_false Bool.false_ne_true Bool.false_ne_true
  all_goals exact iff_of_false Bool.false_ne_true Bool.false_ne_true

theorem Num.nonNegative_extended {x : Num Extended} :
    x.NonNegative ↔ (∃ q, 0 ≤ q ∧ x.value = finite q) ∨ x.value = infinite false := by
  have hzero : (whole 0 : Num Extended).value = finite 0 := congrArg finite Int.cast_zero
  unfold NonNegative
  rw [isAtMost_extended, hzero]
  cases x.value with
  | finite q => simp
  | infinite b =>
    cases b
    · exact iff_of_true rfl (.inr rfl)
    · exact iff_of_false Bool.false_ne_true (by simp)
  | undefined => exact iff_of_false Bool.false_ne_true (by simp)

omit [ExactArithmetic] in
theorem Extended.le_trans {x y z : Extended} (h : x ≤ y) (h' : y ≤ z) : x ≤ z := by
  change (less x y || equal x y) = true at h
  change (less y z || equal y z) = true at h'
  change (less x z || equal x z) = true
  cases x <;> cases y <;> cases z <;> simp [less, equal] at h h' ⊢
  case finite.finite.finite => exact le_iff_lt_or_eq.1 ((le_iff_lt_or_eq.2 h).trans (le_iff_lt_or_eq.2 h'))
  all_goals grind

omit [ExactArithmetic] in
theorem Extended.infinite_mul {q : ℚ} (hq : 0 < q) : infinite false * finite q = infinite false := by
  show Extended.mul (infinite false) (finite q) = _
  simp [Extended.mul, hq.ne', hq.le]

theorem Num.doubling_extended : Num.Doubling Extended where
  total {x y} hx hy h := by
    have hless : ¬ x.value < y.value := fun hlt => Bool.false_ne_true (h.symm.trans ((isLess_extended x y).2 hlt))
    rw [isAtMost_extended]
    rw [nonNegative_extended] at hx hy
    rcases hx with ⟨p, -, hx⟩ | hx <;> rcases hy with ⟨q, -, hy⟩ | hy <;> rw [hx, hy] at hless ⊢
    · exact finite_le.2 (not_lt.1 fun hlt => hless (finite_lt.2 hlt))
    · exact absurd rfl hless
    · rfl
    · rfl
  trans {x y z} h h' := by
    rw [isAtMost_extended] at h h' ⊢
    exact le_trans h h'
  kept {x a m} hx ha := by
    cases ha
    rw [nonNegative_extended] at hx ⊢
    rcases hx with ⟨q, hq, rfl⟩ | rfl
    · exact .inl ⟨q * ((2 ^ m : Int) : ℚ), mul_nonneg hq (by positivity), rfl⟩
    · exact .inr (infinite_mul (by positivity))
  grows {x a b m n} hx hmn ha hb := by
    cases ha
    cases hb
    have hpowers : ((2 ^ m : Int) : ℚ) ≤ ((2 ^ n : Int) : ℚ) := by
      exact_mod_cast pow_le_pow_right₀ (by norm_num : (1 : Int) ≤ 2) hmn
    rw [isAtMost_extended]
    rw [nonNegative_extended] at hx
    rcases hx with ⟨q, hq, rfl⟩ | rfl
    · exact finite_le.2 (mul_le_mul_of_nonneg_left hpowers hq)
    · show infinite false * finite ((2 ^ m : Int) : ℚ) ≤ infinite false * finite ((2 ^ n : Int) : ℚ)
      rw [infinite_mul (by positivity), infinite_mul (by positivity)]
      rfl

end

end StrategyLab
