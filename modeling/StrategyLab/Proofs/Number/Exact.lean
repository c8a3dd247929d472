/-
Exact arithmetic: the rational numbers as scalars. A quotient of whole numbers has no square root,
no infinity, no undefined value and no shortest decimal text of its own; these parts stay open, and
a statement about exact arithmetic holds for every choice of them.

Main statements: exact numbers compare by value (`Num.isLess_iff`, `Num.isAtMost_iff`), however they
are written; however the terms are grouped, a sum is the sum of the list (`Sample.sum_exact`), also
among scalars of another kind (`Scalar.Embeds.sum`); and a mean lies between the smallest and the
largest term (`Sample.mean_between`).
-/
import Mathlib.Algebra.Order.Field.Rat
import Mathlib.Tactic
import StrategyLab.Number.Scalar
import StrategyLab.Number.Summation

namespace StrategyLab

/-- The parts of exact arithmetic that the rational numbers leave open. -/
class ExactArithmetic where
  /-- Stands for the square root. -/
  sqrt : ℚ → ℚ
  /-- Stands for positive infinity. -/
  infinity : ℚ
  /-- Stands for the undefined value. -/
  undefined : ℚ
  /-- Stands for the next larger scalar. -/
  successor : ℚ → ℚ
  /-- The text of a scalar. -/
  text : ℚ → String

/-- One choice of the open parts. -/
instance : Inhabited ExactArithmetic :=
  ⟨{ sqrt := id, infinity := 0, undefined := 0, successor := (· + 1), text := fun _ => "" }⟩

instance [ExactArithmetic] : Scalar ℚ where
  decideLt := inferInstance
  decideLe := inferInstance
  ofInt? n := some n
  rational? x := some x
  isFinite _ := true
  isSigned x := decide (x < 0)
  infinity := ExactArithmetic.infinity
  undefined := ExactArithmetic.undefined
  sqrt := ExactArithmetic.sqrt
  successor := ExactArithmetic.successor
  text := ExactArithmetic.text

namespace Scalar

theorem num_lt_mul_den_iff (x : ℚ) (n : Int) : x.num < n * x.den ↔ x < n := by
  rw [Rat.lt_iff]; simp

theorem mul_den_lt_num_iff (x : ℚ) (n : Int) : n * x.den < x.num ↔ (n : ℚ) < x := by
  rw [Rat.lt_iff]; simp

variable [ExactArithmetic]

@[simp] theorem rational?_exact (x : ℚ) : rational? x = some x := rfl

/-- The exact comparison with a whole number. -/
theorem compareInt_exact (x : ℚ) (n : Int) : compareInt x n = some (compare x (n : ℚ)) := by
  simp only [compareInt, rational?_exact, Option.some.injEq]
  rcases lt_trichotomy x (n : ℚ) with h | h | h
  · rw [compare_lt_iff_lt.2 h, compare_lt_iff_lt, num_lt_mul_den_iff]; exact h
  · have h1 := (num_lt_mul_den_iff x n).not.2 (by rw [h]; exact lt_irrefl _)
    have h2 := (mul_den_lt_num_iff x n).not.2 (by rw [h]; exact lt_irrefl _)
    rw [compare_eq_iff_eq.2 h, compare_eq_iff_eq]; omega
  · rw [compare_gt_iff_gt.2 h, compare_gt_iff_gt]; exact (mul_den_lt_num_iff x n).2 h

end Scalar

namespace Num

variable [ExactArithmetic]

@[simp] theorem value_whole (n : Int) : (whole n : Num ℚ).value = n := rfl

@[simp] theorem value?_exact (x : Num ℚ) : x.value? = some x.value := by cases x <;> rfl

/-- Exact numbers compare by value. -/
theorem compare?_exact (x y : Num ℚ) : x.compare? y = some (compare x.value y.value) := by
  cases x with
  | whole m =>
    cases y with
    | whole n =>
      simp only [compare?, value_whole, Option.some.injEq]
      rcases lt_trichotomy m n with h | h | h
      · rw [compare_lt_iff_lt.2 h, compare_lt_iff_lt.2 (Int.cast_lt.2 h)]
      · rw [compare_eq_iff_eq.2 h, compare_eq_iff_eq.2 (by rw [h])]
      · rw [compare_gt_iff_gt.2 h, compare_gt_iff_gt.2 (Int.cast_lt.2 h)]
    | real y =>
      simp only [compare?, Scalar.compareInt_exact, Option.map_some, value_whole, value_real, Option.some.injEq]
      exact Std.OrientedOrd.eq_swap.symm
  | real x =>
    cases y with
    | whole n => simp only [compare?, Scalar.compareInt_exact, value_whole, value_real]
    | real y =>
      simp only [compare?, value_real]
      rcases lt_trichotomy x y with h | h | h
      · rw [if_pos h, compare_lt_iff_lt.2 h]
      · rw [if_neg (by rw [h]; exact lt_irrefl _), if_neg (by rw [h]; exact lt_irrefl _),
          if_pos (beq_iff_eq.2 h), compare_eq_iff_eq.2 h]
      · rw [if_neg (not_lt.2 h.le), if_pos h, compare_gt_iff_gt.2 h]

theorem isLess_iff (x y : Num ℚ) : x.isLess y = true ↔ x.value < y.value := by
  simp [isLess, compare?_exact, compare_lt_iff_lt]

theorem isAtMost_iff (x y : Num ℚ) : x.isAtMost y = true ↔ x.value ≤ y.value := by
  simp only [isAtMost, compare?_exact]
  rcases lt_trichotomy x.value y.value with h | h | h
  · rw [compare_lt_iff_lt.2 h]; simp [h.le]
  · rw [compare_eq_iff_eq.2 h]; simp [h.le]
  · rw [compare_gt_iff_gt.2 h]; simp [h]

end Num

/-! ## Rational numbers among scalars of another kind -/

/-- Rational numbers stand among the scalars, where they compute and compare as they do in exact
arithmetic. Nothing is said about a division by zero. -/
structure Scalar.Embeds [ExactArithmetic] {α : Type} [Scalar α] (e : ℚ → α) : Prop where
  literal (m : Nat) (s : Bool) (x : Nat) : (OfScientific.ofScientific m s x : α) = e (OfScientific.ofScientific m s x)
  ofNat (n : Nat) : (Scalar.ofNat n : α) = e n
  add (p q : ℚ) : e p + e q = e (p + q)
  sub (p q : ℚ) : e p - e q = e (p - q)
  mul (p q : ℚ) : e p * e q = e (p * q)
  div (p : ℚ) {q : ℚ} (hq : q ≠ 0) : e p / e q = e (p / q)
  neg (p : ℚ) : -e p = e (-p)
  lt (p q : ℚ) : e p < e q ↔ p < q
  le (p q : ℚ) : e p ≤ e q ↔ p ≤ q
  equal (p q : ℚ) : (e p == e q) = (p == q)
  isFinite (p : ℚ) : Scalar.isFinite (e p) = true
  sqrt {q : ℚ} (hq : 0 ≤ q) : Scalar.sqrt (e q) = e (ExactArithmetic.sqrt q)

/-- A mean of squares is not negative. -/
theorem Sample.squares_nonneg (m : ℚ) (xs : List ℚ) : 0 ≤ (xs.map fun x => (x - m) * (x - m)).sum / xs.length := by
  refine div_nonneg (List.sum_nonneg fun y hy => ?_) (Nat.cast_nonneg _)
  obtain ⟨x, -, rfl⟩ := List.mem_map.1 hy
  exact mul_self_nonneg _

variable [ExactArithmetic]

theorem Scalar.embeds_exact : Embeds (id : ℚ → ℚ) where
  literal _ _ _ := rfl
  ofNat _ := rfl
  add _ _ := rfl
  sub _ _ := rfl
  mul _ _ := rfl
  div _ _ _ := rfl
  neg _ := rfl
  lt _ _ := Iff.rfl
  le _ _ := Iff.rfl
  equal _ _ := rfl
  isFinite _ := rfl
  sqrt _ := rfl

/-- The sum of the lanes. -/
def Sample.Lanes.total (r : Lanes ℚ) : ℚ := r.a + r.b + (r.c + r.d) + (r.e + r.f + (r.g + r.h))

namespace Scalar.Embeds

variable {α : Type} [Scalar α] {e : ℚ → α} (h : Embeds e)

include h

theorem zero : (0.0 : α) = e 0 := by
  rw [h.literal]
  norm_num

theorem magnitude (x : ℚ) : Scalar.magnitude (e x) = e |x| := by
  have hneg : e x < 0.0 ↔ x < 0 := by rw [h.zero, h.lt]
  unfold Scalar.magnitude
  split_ifs with hx
  · rw [h.neg, abs_of_neg (hneg.1 hx)]
  · rw [abs_of_nonneg (not_lt.1 fun hlt => hx (hneg.2 hlt))]

theorem greatest (x y : ℚ) : Scalar.greatest (e x) (e y) = e (max x y) := by
  unfold Scalar.greatest
  split_ifs with hxy
  · rw [max_eq_right ((h.lt x y).1 hxy).le]
  · rw [max_eq_left (not_lt.1 fun hlt => hxy ((h.lt x y).2 hlt))]

theorem sumOnto (start : ℚ) (xs : List ℚ) : Sample.sumOnto (e start) (xs.map e) = e (start + xs.sum) := by
  induction xs generalizing start with
  | nil => exact congrArg e (add_zero start).symm
  | cons x xs ih =>
    rw [List.sum_cons, ← add_assoc, ← ih, ← h.add]
    rfl

theorem sumLeft (xs : List ℚ) : Sample.sumLeft (xs.map e) = e xs.sum := by
  cases xs with
  | nil => exact h.zero
  | cons x xs => exact h.sumOnto x xs

theorem addGroups (r : Sample.Lanes ℚ) (xs : List ℚ) :
    Sample.addGroups ⟨e r.a, e r.b, e r.c, e r.d, e r.e, e r.f, e r.g, e r.h⟩ (xs.map e) = e (r.total + xs.sum) := by
  match xs with
  | a :: b :: c :: d :: i :: f :: g :: j :: rest =>
    have ih := addGroups ⟨r.a + a, r.b + b, r.c + c, r.d + d, r.e + i, r.f + f, r.g + g, r.h + j⟩ rest
    simp only [List.map_cons, Sample.addGroups, h.add, ih, Sample.Lanes.total, List.sum_cons]
    congr 1
    ring
  -- fewer than eight terms
  | [] | [_] | [_, _] | [_, _, _] | [_, _, _, _] | [_, _, _, _, _] | [_, _, _, _, _, _] | [_, _, _, _, _, _, _] =>
    refine Eq.trans ?_ (h.sumOnto r.total _)
    simp only [Sample.Lanes.total, ← h.add]
    rfl
  termination_by xs.length

theorem sumLanes (xs : List ℚ) : Sample.sumLanes (xs.map e) = e xs.sum := by
  match xs with
  | a :: b :: c :: d :: i :: f :: g :: j :: rest =>
    refine (h.addGroups ⟨a, b, c, d, i, f, g, j⟩ rest).trans (congrArg e ?_)
    simp only [Sample.Lanes.total, List.sum_cons]
    ring
  | [] | [_] | [_, _] | [_, _, _] | [_, _, _, _] | [_, _, _, _, _] | [_, _, _, _, _, _] | [_, _, _, _, _, _, _] =>
    refine Eq.trans ?_ (h.sumLeft _)
    rfl

theorem sum (xs : List ℚ) : Sample.sum (xs.map e) = e xs.sum := by
  fun_induction Sample.sum xs with
  | case1 xs hshort =>
    unfold Sample.sum
    rw [List.length_map, if_pos hshort]
    exact h.sumLanes xs
  | case2 xs hlong ih₁ ih₂ =>
    unfold Sample.sum
    rw [List.length_map, if_neg hlong, ← List.map_take, ← List.map_drop, ih₁, ih₂, h.add,
      List.sum_take_add_sum_drop]

theorem mean {xs : List ℚ} (hne : xs ≠ []) : Sample.mean (xs.map e) = e (xs.sum / xs.length) := by
  have hlength : (xs.length : ℚ) ≠ 0 := Nat.cast_ne_zero.2 (List.length_pos_of_ne_nil hne).ne'
  unfold Sample.mean
  rw [List.isEmpty_map, List.isEmpty_eq_false_iff.2 hne, if_neg Bool.false_ne_true, h.sum, List.length_map, h.ofNat,
    h.div _ hlength]

theorem deviation {xs : List ℚ} (hne : xs ≠ []) : Sample.deviation (xs.map e) = e (Sample.deviation xs) := by
  let m := xs.sum / xs.length
  have hsquares : (xs.map e).map (fun x => (x - e m) * (x - e m)) = (xs.map fun x => (x - m) * (x - m)).map e := by
    rw [List.map_map, List.map_map]
    exact List.map_congr_left fun x _ => by simp only [Function.comp_apply, h.sub, h.mul]
  have hmean : Sample.mean xs = m := by simpa using embeds_exact.mean hne
  have hvariance : Sample.mean (xs.map fun x => (x - m) * (x - m)) =
      (xs.map fun x => (x - m) * (x - m)).sum / xs.length := by
    simpa using embeds_exact.mean (List.map_eq_nil_iff.not.2 hne)
  unfold Sample.deviation
  dsimp only
  rw [h.mean hne, hsquares, h.mean (List.map_eq_nil_iff.not.2 hne), List.length_map, h.sqrt (Sample.squares_nonneg m xs), hmean,
    hvariance]
  rfl

end Scalar.Embeds

theorem Scalar.magnitude_exact (x : ℚ) : magnitude x = |x| := embeds_exact.magnitude x

theorem Scalar.greatest_exact (x y : ℚ) : greatest x y = max x y := embeds_exact.greatest x y

end StrategyLab

namespace StrategyLab.Sample

/-! ## Sums -/

section

variable {α : Type} [Scalar α] {Q : α → Prop}

/-- What is true of all terms and of sums is true of a sum. -/
theorem sumOnto_closed (hadd : ∀ x y, Q x → Q y → Q (x + y)) {start : α}
    (hstart : Q start) : ∀ {xs : List α}, (∀ x ∈ xs, Q x) → Q (sumOnto start xs)
  | [], _ => hstart
  | x :: xs, h => by
    obtain ⟨hx, hxs⟩ := List.forall_mem_cons.1 h
    exact sumOnto_closed hadd (hadd start x hstart hx) hxs

theorem addGroups_closed (hadd : ∀ x y, Q x → Q y → Q (x + y)) {r : Lanes α}
    (hr : ∀ x ∈ [r.a, r.b, r.c, r.d, r.e, r.f, r.g, r.h], Q x) {xs : List α} (h : ∀ x ∈ xs, Q x) :
    Q (addGroups r xs) := by
  fun_induction addGroups r xs with
  | case1 r x₁ x₂ x₃ x₄ x₅ x₆ x₇ x₈ rest ih =>
    simp only [List.forall_mem_cons] at hr h
    obtain ⟨h₁, h₂, h₃, h₄, h₅, h₆, h₇, h₈, hrest⟩ := h
    obtain ⟨ha, hb, hc, hd, he, hf, hg, hh, -⟩ := hr
    refine ih ?_ hrest
    simp only [List.forall_mem_cons]
    exact ⟨hadd _ _ ha h₁, hadd _ _ hb h₂, hadd _ _ hc h₃, hadd _ _ hd h₄, hadd _ _ he h₅, hadd _ _ hf h₆,
      hadd _ _ hg h₇, hadd _ _ hh h₈, nofun⟩
  | case2 r rest _ =>
    simp only [List.forall_mem_cons] at hr
    obtain ⟨ha, hb, hc, hd, he, hf, hg, hh, -⟩ := hr
    exact sumOnto_closed hadd
      (hadd _ _ (hadd _ _ (hadd _ _ ha hb) (hadd _ _ hc hd)) (hadd _ _ (hadd _ _ he hf) (hadd _ _ hg hh))) h

theorem sumLanes_closed (hzero : Q 0.0) (hadd : ∀ x y, Q x → Q y → Q (x + y))
    {xs : List α} (h : ∀ x ∈ xs, Q x) : Q (sumLanes xs) := by
  unfold sumLanes
  split
  · rename_i x₁ x₂ x₃ x₄ x₅ x₆ x₇ x₈ rest
    have hlanes : ∀ x ∈ [x₁, x₂, x₃, x₄, x₅, x₆, x₇, x₈], Q x := fun x hx =>
      h x (List.mem_append_left rest hx)
    have hrest : ∀ x ∈ rest, Q x := fun x hx => h x (List.mem_append_right [x₁, x₂, x₃, x₄, x₅, x₆, x₇, x₈] hx)
    exact addGroups_closed hadd hlanes hrest
  · cases xs with
    | nil => exact hzero
    | cons x xs =>
      obtain ⟨hx, hxs⟩ := List.forall_mem_cons.1 h
      exact sumOnto_closed hadd hx hxs

theorem sum_closed (hzero : Q 0.0) (hadd : ∀ x y, Q x → Q y → Q (x + y))
    {xs : List α} (h : ∀ x ∈ xs, Q x) : Q (sum xs) := by
  fun_induction sum xs with
  | case1 xs hshort => exact sumLanes_closed hzero hadd h
  | case2 xs hlong ih₁ ih₂ =>
    exact hadd _ _ (ih₁ fun x hx => h x (List.mem_of_mem_take hx)) (ih₂ fun x hx => h x (List.mem_of_mem_drop hx))

end

variable [ExactArithmetic]

theorem sum_exact (xs : List ℚ) : sum xs = xs.sum := by
  simpa using Scalar.embeds_exact.sum xs

/-! ## Means -/

theorem mean_exact {xs : List ℚ} (hne : xs ≠ []) : mean xs = xs.sum / xs.length := by
  simpa using Scalar.embeds_exact.mean hne

omit [ExactArithmetic] in
/-- A mean lies between the least and the greatest of the terms. -/
theorem mean_between {xs : List ℚ} (h : xs ≠ []) :
    ∃ least ∈ xs, ∃ greatest ∈ xs, (∀ x ∈ xs, least ≤ x ∧ x ≤ greatest) ∧
      least ≤ xs.sum / xs.length ∧ xs.sum / xs.length ≤ greatest := by
  have hlength : (0 : ℚ) < xs.length := by exact_mod_cast List.length_pos_of_ne_nil h
  obtain ⟨least, hleast, hleast'⟩ := xs.toFinset.exists_min_image id (List.toFinset_nonempty_iff xs |>.2 h)
  obtain ⟨greatest, hgreatest, hgreatest'⟩ := xs.toFinset.exists_max_image id (List.toFinset_nonempty_iff xs |>.2 h)
  rw [List.mem_toFinset] at hleast hgreatest
  have hlow : ∀ x ∈ xs, least ≤ x := fun x hx => hleast' x (List.mem_toFinset.2 hx)
  have hhigh : ∀ x ∈ xs, x ≤ greatest := fun x hx => hgreatest' x (List.mem_toFinset.2 hx)
  refine ⟨least, hleast, greatest, hgreatest, fun x hx => ⟨hlow x hx, hhigh x hx⟩, ?_, ?_⟩
  · rw [le_div_iff₀ hlength, mul_comm, ← nsmul_eq_mul]
    exact List.card_nsmul_le_sum xs least hlow
  · rw [div_le_iff₀ hlength, mul_comm, ← nsmul_eq_mul]
    exact List.sum_le_card_nsmul xs greatest hhigh

end StrategyLab.Sample
