/-
Dominance of solutions. One solution dominates another exactly if, turned so that more is better, it
falls behind in no objective for which both have a finite score, and is ahead in one (`dominates_shared`).

If the scores are finite, those of a solution are a point, and one solution dominates another exactly
if its point is larger in the order by coordinates (`dominates_iff`): so dominance is a strict order. A
solution that is dominated at all is dominated by one that is not (`exists_undominated`).
-/
import Mathlib.Data.Set.Finite.Lattice
import Mathlib.Order.Preorder.Finite
import StrategyLab.Optimization.Frontier
import StrategyLab.Proofs.Number.Extended

namespace StrategyLab

namespace Solution

variable {α : Type} [Scalar α] {objectives : List String}

/-! ## Comparisons -/

/-- An objective has a finite score. -/
def Has (s : Solution α) (name : String) : Prop := ∃ x, s.finiteScore name = .ok (some x)

/-- Every objective has a finite score. -/
def Scored (objectives : List String) (s : Solution α) : Prop :=
  ∀ name ∈ objectives, ∃ x, s.finiteScore name = .ok (some x)

/-- The score of every objective can be read. -/
def Readable (objectives : List String) (s : Solution α) : Prop := ∀ name ∈ objectives, ∃ x, s.finiteScore name = .ok x

theorem Scored.readable {s : Solution α} (h : s.Scored objectives) : s.Readable objectives := by
  intro name hname
  obtain ⟨x, hx⟩ := h name hname
  exact ⟨some x, hx⟩

theorem finiteScore_isFinite {s : Solution α} {name : String} {x : α} (h : s.finiteScore name = .ok (some x)) :
    Scalar.isFinite x = true := by
  unfold finiteScore at h
  split at h
  · cases h
  · cases h
  · rename_i v _ _
    cases hv : v.toReal with
    | error e => rw [hv] at h; cases h
    | ok y =>
      rw [hv] at h
      change Except.ok (if Scalar.isFinite y then some y else none) = _ at h
      by_cases hy : Scalar.isFinite y = true
      · rw [if_pos hy] at h
        cases h
        exact hy
      · rw [if_neg hy] at h
        cases h

/-- Solutions whose scores can be read can be compared. -/
theorem dominates_readable {a b : Solution α} (ha : a.Readable objectives) (hb : b.Readable objectives) :
    ∃ t, a.dominates b objectives = .ok t := by
  unfold dominates
  generalize false = better
  induction objectives generalizing better with
  | nil => exact ⟨better, rfl⟩
  | cons name rest ih =>
    obtain ⟨x, hx⟩ := ha name List.mem_cons_self
    obtain ⟨y, hy⟩ := hb name List.mem_cons_self
    have hrest := ih (fun n hn => ha n (List.mem_cons_of_mem _ hn)) (fun n hn => hb n (List.mem_cons_of_mem _ hn))
    unfold dominatesFrom
    rw [hx, hy]
    rcases x with _ | x
    · exact hrest better
    · rcases y with _ | y
      · exact hrest better
      · change ∃ t, (if isBetter name y x then pure false
          else dominatesFrom a b (better || isBetter name x y) rest) = .ok t
        by_cases hlost : isBetter name y x = true
        · rw [if_pos hlost]
          exact ⟨false, rfl⟩
        · rw [if_neg hlost]
          exact hrest _

/-- Whether one solution dominates another, false if they cannot be compared. -/
def beats (objectives : List String) (a b : Solution α) : Bool := (a.dominates b objectives).toOption.getD false

theorem dominates_eq {a b : Solution α} (ha : a.Readable objectives) (hb : b.Readable objectives) :
    a.dominates b objectives = .ok (beats objectives a b) := by
  obtain ⟨t, ht⟩ := dominates_readable ha hb
  unfold beats
  rw [ht]
  rfl

/-! ## The order -/

/-- The finite score of an objective as a rational number of which more is better. -/
def standing (s : Solution α) (name : String) : ℚ :=
  match s.finiteScore name with
  | .ok (some x) =>
    let q := (Scalar.rational? x).getD 0
    if Objective.isMaximized name then q else -q
  | _ => 0

/-- The point of a solution among those of the same objectives. -/
def point (objectives : List String) (s : Solution α) : {name // name ∈ objectives} → ℚ := fun n => s.standing n

theorem isBetter_iff (hα : Scalar.Ordered α) {a b : Solution α} {name : String} {x y : α}
    (hx : a.finiteScore name = .ok (some x)) (hy : b.finiteScore name = .ok (some y)) :
    isBetter name x y = true ↔ b.standing name < a.standing name := by
  obtain ⟨p, hp⟩ := hα.rational x (finiteScore_isFinite hx)
  obtain ⟨q, hq⟩ := hα.rational y (finiteScore_isFinite hy)
  unfold isBetter standing
  rw [hx, hy]
  dsimp only
  rw [hp, hq]
  by_cases hmax : Objective.isMaximized name = true
  · simp [hmax, hα.less hq hp]
  · simp [hmax, hα.less hp hq]

/-- Both solutions have a finite score for an objective, in which the first one may be compared. -/
def Shares (a b : Solution α) (name : String) : Prop := a.Has name ∧ b.Has name

/-- The first solution is ahead in an objective that both have. -/
def Ahead (a b : Solution α) (name : String) : Prop := a.Shares b name ∧ b.standing name < a.standing name

theorem not_shares_left {a b : Solution α} {name : String} (h : a.finiteScore name = .ok none) : ¬ a.Shares b name := by
  rintro ⟨⟨x, hx⟩, -⟩
  rw [h] at hx
  cases hx

theorem not_shares_right {a b : Solution α} {name : String} (h : b.finiteScore name = .ok none) : ¬ a.Shares b name := by
  rintro ⟨-, x, hx⟩
  rw [h] at hx
  cases hx

/-- A comparison that goes on: in what both have the first solution must not fall behind, and be ahead once. -/
theorem dominatesFrom_iff (hα : Scalar.Ordered α) {a b : Solution α} (ha : a.Readable objectives)
    (hb : b.Readable objectives) (better : Bool) : ∃ t, dominatesFrom a b better objectives = .ok t ∧
      (t = true ↔ (∀ n ∈ objectives, a.Shares b n → b.standing n ≤ a.standing n) ∧
        (better = true ∨ ∃ n ∈ objectives, a.Ahead b n)) := by
  induction objectives generalizing better with
  | nil =>
    refine ⟨better, rfl, ?_⟩
    simp
  | cons name rest ih =>
    obtain ⟨x, hx⟩ := ha name List.mem_cons_self
    obtain ⟨y, hy⟩ := hb name List.mem_cons_self
    have hrest := ih (fun n hn => ha n (List.mem_cons_of_mem _ hn)) (fun n hn => hb n (List.mem_cons_of_mem _ hn))
    -- an objective that one of the two does not have changes nothing
    have hskip : ¬ a.Shares b name → ∃ t, dominatesFrom a b better rest = .ok t ∧
        (t = true ↔ (∀ n ∈ name :: rest, a.Shares b n → b.standing n ≤ a.standing n) ∧
          (better = true ∨ ∃ n ∈ name :: rest, a.Ahead b n)) := by
      intro hnot
      obtain ⟨t, ht, hiff⟩ := hrest better
      refine ⟨t, ht, hiff.trans ?_⟩
      rw [List.forall_mem_cons]
      simp only [List.mem_cons, exists_eq_or_imp, Ahead, hnot, false_imp_iff, false_and, true_and, false_or]
    unfold dominatesFrom
    rw [hx, hy]
    rcases x with _ | x
    · exact hskip (not_shares_left hx)
    · rcases y with _ | y
      · exact hskip (not_shares_right hy)
      · have hshares : a.Shares b name := ⟨⟨x, hx⟩, ⟨y, hy⟩⟩
        have hahead := isBetter_iff hα hx hy
        have hbehind := isBetter_iff hα hy hx
        change ∃ t, (if isBetter name y x then pure false
          else dominatesFrom a b (better || isBetter name x y) rest) = .ok t ∧ _
        by_cases hlost : isBetter name y x = true
        · rw [if_pos hlost]
          refine ⟨false, rfl, ?_⟩
          simp only [Bool.false_eq_true, List.forall_mem_cons, false_iff, not_and]
          intro h
          exact absurd (hbehind.1 hlost) (not_lt.2 (h.1 hshares))
        · rw [if_neg hlost]
          obtain ⟨t, ht, hiff⟩ := hrest (better || isBetter name x y)
          refine ⟨t, ht, hiff.trans ?_⟩
          have hle : b.standing name ≤ a.standing name := not_lt.1 (mt hbehind.2 hlost)
          rw [List.forall_mem_cons, Bool.or_eq_true, hahead]
          simp only [List.mem_cons, exists_eq_or_imp, Ahead, hshares, hle, true_and, true_imp_iff, or_assoc]

/-- One solution dominates another exactly if it is ahead in one objective that both have, and behind in none. -/
theorem dominates_shared (hα : Scalar.Ordered α) {a b : Solution α} (ha : a.Readable objectives)
    (hb : b.Readable objectives) : a.dominates b objectives = .ok true ↔
      (∀ n ∈ objectives, a.Shares b n → b.standing n ≤ a.standing n) ∧ ∃ n ∈ objectives, a.Ahead b n := by
  obtain ⟨t, ht, hiff⟩ := dominatesFrom_iff hα ha hb false
  unfold dominates
  rw [ht, Except.ok.injEq, hiff]
  simp only [Bool.false_eq_true, false_or]

/-- No solution is ahead of itself. -/
theorem beats_self (hα : Scalar.Ordered α) {s : Solution α} (hs : s.Readable objectives) :
    beats objectives s s = false := by
  rw [Bool.eq_false_iff]
  intro h
  have hdominates := dominates_eq hs hs
  rw [h, dominates_shared hα hs hs] at hdominates
  obtain ⟨-, n, -, -, hlt⟩ := hdominates
  exact lt_irrefl _ hlt

/-- One solution dominates another exactly if its point is larger. -/
theorem dominates_iff (hα : Scalar.Ordered α) {a b : Solution α} (ha : a.Scored objectives)
    (hb : b.Scored objectives) : a.dominates b objectives = .ok true ↔ b.point objectives < a.point objectives := by
  have hshares : ∀ n ∈ objectives, a.Shares b n := fun n hn => ⟨ha n hn, hb n hn⟩
  rw [dominates_shared hα ha.readable hb.readable, Pi.lt_def]
  simp only [Pi.le_def, point, Subtype.forall, Subtype.exists, exists_prop]
  exact and_congr (forall₂_congr fun n hn => ⟨fun h => h (hshares n hn), fun h _ => h⟩)
    (exists_congr fun n => and_congr_right fun hn => and_iff_right (hshares n hn))

theorem beats_iff (hα : Scalar.Ordered α) {a b : Solution α} (ha : a.Scored objectives) (hb : b.Scored objectives) :
    beats objectives a b = true ↔ b.point objectives < a.point objectives := by
  rw [← dominates_iff hα ha hb, dominates_eq ha.readable hb.readable, Except.ok.injEq]

theorem dominates_false_iff (hα : Scalar.Ordered α) {a b : Solution α} (ha : a.Scored objectives)
    (hb : b.Scored objectives) : a.dominates b objectives = .ok false ↔ ¬ b.point objectives < a.point objectives := by
  rw [← beats_iff hα ha hb, dominates_eq ha.readable hb.readable, Except.ok.injEq, Bool.not_eq_true]

/-! ## Undominated solutions -/

/-- The solution did not fail, and is dominated by none of several that did not fail. -/
def isUndominated (objectives : List String) (solutions : List (Solution α)) (s : Solution α) : Bool :=
  !s.isFailed && solutions.all fun other => other.isFailed || !beats objectives other s

theorem isUndominated_iff {solutions : List (Solution α)} {s : Solution α} :
    isUndominated objectives solutions s = true ↔
      s.isFailed = false ∧ ∀ other ∈ solutions, other.isFailed = false → beats objectives other s = false := by
  simp only [isUndominated, Bool.and_eq_true, Bool.not_eq_true', List.all_eq_true, Bool.or_eq_true]
  refine and_congr_right fun _ => forall₂_congr fun other _ => ?_
  cases other.isFailed <;> simp

/-- A solution that is dominated is dominated by one that is not. -/
theorem exists_undominated (hα : Scalar.Ordered α) {solutions : List (Solution α)}
    (hscored : ∀ s ∈ solutions, s.isFailed = false → s.Scored objectives) {s : Solution α} (hs : s ∈ solutions)
    (halive : s.isFailed = false) (hdominated : isUndominated objectives solutions s = false) :
    ∃ best ∈ solutions, isUndominated objectives solutions best = true ∧ beats objectives best s = true := by
  let above : Set (Solution α) := {x | x ∈ solutions ∧ x.isFailed = false ∧ s.point objectives < x.point objectives}
  have hfinite : above.Finite := (List.finite_toSet solutions).subset fun x hx => hx.1
  have hnonempty : above.Nonempty := by
    have hnot := mt isUndominated_iff.2 (Bool.eq_false_iff.1 hdominated)
    push Not at hnot
    obtain ⟨other, hother, hlives, hbeats⟩ := hnot halive
    exact ⟨other, hother, hlives, (beats_iff hα (hscored _ hother hlives) (hscored _ hs halive)).1
      (Bool.not_eq_false _ ▸ hbeats)⟩
  obtain ⟨best, ⟨hbest, hlives, hhigher⟩, hmax⟩ := hfinite.exists_maximalFor (point objectives) above hnonempty
  refine ⟨best, hbest, isUndominated_iff.2 ⟨hlives, fun other hother hother' => ?_⟩,
    (beats_iff hα (hscored _ hbest hlives) (hscored _ hs halive)).2 hhigher⟩
  -- whatever dominates the best is above as well, and then not larger
  by_contra hbeats
  have hlt := (beats_iff hα (hscored _ hother hother') (hscored _ hbest hlives)).1 (Bool.not_eq_false _ ▸ hbeats)
  exact absurd (hmax ⟨hother, hother', hhigher.trans hlt⟩ hlt.le) hlt.not_ge

end Solution

end StrategyLab
