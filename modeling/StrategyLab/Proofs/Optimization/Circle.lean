/-
Empty frontiers. Two solutions are compared only in what both have, so that dominance need not be
transitive where scores are missing: it may run in a circle (`turning_frontier`). This is the only way
in which a frontier becomes empty while there are candidates. Along a circle an objective that all of
its members have never grows worse, so it stays what it is, and the advantage of every step lies in an
objective that another member lacks: a circle has at least three members, and it has none if of any two
candidates one has all that the other has. An empty frontier has no best solution, and any other has one.
-/
import Mathlib.Dynamics.PeriodicPts.Defs
import StrategyLab.Proofs.Optimization.Frontier

namespace StrategyLab

namespace Frontier

open Solution

variable {α : Type} [Scalar α] {objectives : List String} {solutions : List (Solution α)}

/-! ## Circles -/

/-- Different candidates in a circle, each of them dominated by the next one. -/
structure Circle (objectives : List String) (solutions : List (Solution α)) (length : ℕ) (member : ℕ → Solution α) :
    Prop where
  closed : member length = member 0
  candidate (i : ℕ) : member i ∈ candidates solutions
  dominated (i : ℕ) : (member (i + 1)).dominates (member i) objectives = .ok true
  apart : Set.InjOn member (Set.Iio length)

/-- Every candidate is dominated by a candidate. -/
def AllDominated (objectives : List String) (solutions : List (Solution α)) : Prop :=
  ∀ s ∈ candidates solutions, ∃ other ∈ candidates solutions, other.dominates s objectives = .ok true

/-- Who goes from a candidate to one that dominates it walks in a circle in the end. -/
theorem exists_circle (h : AllDominated objectives solutions) (hsome : candidates solutions ≠ []) :
    ∃ length member, 0 < length ∧ Circle objectives solutions length member := by
  have hnext : ∀ s : {s // s ∈ candidates solutions}, ∃ other : {s // s ∈ candidates solutions},
      other.1.dominates s.1 objectives = .ok true := by
    rintro ⟨s, hs⟩
    obtain ⟨other, hother, hdominates⟩ := h s hs
    exact ⟨⟨other, hother⟩, hdominates⟩
  choose next hdominates using hnext
  obtain ⟨first, hfirst⟩ := List.exists_mem_of_ne_nil _ hsome
  have : Finite {s // s ∈ candidates solutions} := List.finite_toSet _
  -- of the endless walk two places are the same, so the earlier one is met again and again
  obtain ⟨start, hstart⟩ : ∃ start, start ∈ Function.periodicPts next := by
    obtain ⟨i, j, hne, heq⟩ := Finite.exists_ne_map_eq_of_infinite fun n => next^[n] ⟨first, hfirst⟩
    wlog hlt : i < j generalizing i j
    · exact this j i hne.symm heq.symm (by omega)
    refine ⟨next^[i] ⟨first, hfirst⟩, Function.mk_mem_periodicPts (n := j - i) (by omega) ?_⟩
    change next^[j - i] (next^[i] ⟨first, hfirst⟩) = _
    rw [← Function.iterate_add_apply, Nat.sub_add_cancel hlt.le]
    exact heq.symm
  refine ⟨Function.minimalPeriod next start, fun i => (next^[i] start).1,
    Function.minimalPeriod_pos_of_mem_periodicPts hstart, ?_⟩
  constructor
  · exact congrArg Subtype.val (Function.isPeriodicPt_minimalPeriod next start)
  · exact fun i => (next^[i] start).2
  · intro i
    rw [Function.iterate_succ_apply']
    exact hdominates _
  · exact Subtype.val_injective.comp_injOn Function.iterate_injOn_Iio_minimalPeriod

namespace Circle

variable {length : ℕ} {member : ℕ → Solution α} (hα : Scalar.Ordered α)
  (hreadable : ∀ s ∈ candidates solutions, s.Readable objectives) (h : Circle objectives solutions length member)

include hα hreadable h

theorem step (i : ℕ) :
    (∀ n ∈ objectives, (member (i + 1)).Shares (member i) n → (member i).standing n ≤ (member (i + 1)).standing n) ∧
      ∃ n ∈ objectives, (member (i + 1)).Ahead (member i) n :=
  (dominates_shared hα (hreadable _ (h.candidate _)) (hreadable _ (h.candidate i))).1 (h.dominated i)

/-- What every member has grows no worse along the circle. -/
theorem standing_le {name : String} (hname : name ∈ objectives) (hall : ∀ i ≤ length, (member i).Has name) {i j : ℕ}
    (hij : i ≤ j) (hj : j ≤ length) : (member i).standing name ≤ (member j).standing name := by
  induction j, hij using Nat.le_induction with
  | base => exact le_rfl
  | succ j hij ih =>
    have hstep := (h.step hα hreadable j).1 name hname ⟨hall (j + 1) hj, hall j (by omega)⟩
    exact (ih (by omega)).trans hstep

/-- The advantage of a step lies in an objective that some member lacks. -/
theorem lacks {i : ℕ} (hi : i < length) {name : String} (hname : name ∈ objectives)
    (hahead : (member (i + 1)).Ahead (member i) name) : ∃ j < length, ¬ (member j).Has name := by
  by_contra hnone
  push Not at hnone
  have hall : ∀ j ≤ length, (member j).Has name := by
    intro j hj
    rcases hj.lt_or_eq with hlt | rfl
    · exact hnone j hlt
    · rw [h.closed]
      exact hnone 0 (by omega)
  -- from the end of the step on around the circle, back to its beginning
  have hon := h.standing_le hα hreadable hname hall (i := i + 1) (by omega) le_rfl
  have hback := h.standing_le hα hreadable hname hall (i := 0) (Nat.zero_le i) (by omega)
  rw [h.closed] at hon
  exact absurd hahead.2 (not_lt.2 (hon.trans hback))

theorem three_le (hlength : 0 < length) : 3 ≤ length := by
  obtain ⟨name, hname, hahead⟩ := (h.step hα hreadable 0).2
  obtain ⟨j, hj, hlacks⟩ := h.lacks hα hreadable hlength hname hahead
  have hzero : j ≠ 0 := by
    rintro rfl
    exact hlacks hahead.1.2
  have hone : j ≠ 1 := by
    rintro rfl
    exact hlacks hahead.1.1
  omega

/-- The objectives that a member has. -/
def possessed (objectives : List String) (member : ℕ → Solution α) (i : ℕ) : Set String :=
  {n | n ∈ objectives ∧ (member i).Has n}

/-- Some two members each have an objective that the other lacks. -/
theorem exists_apart (hlength : 0 < length) : ∃ i < length, ∃ j < length,
    (∃ n ∈ objectives, (member i).Has n ∧ ¬ (member j).Has n) ∧
      ∃ n ∈ objectives, (member j).Has n ∧ ¬ (member i).Has n := by
  obtain ⟨i, hi, hleast⟩ := (Set.finite_Iio length).exists_minimalFor (possessed objectives member) _ ⟨0, hlength⟩
  obtain ⟨name, hname, hahead⟩ := (h.step hα hreadable i).2
  obtain ⟨j, hj, hlacks⟩ := h.lacks hα hreadable hi hname hahead
  refine ⟨i, hi, j, hj, ⟨name, hname, hahead.1.2, hlacks⟩, ?_⟩
  -- otherwise the second member has less than the first one, which has as little as any
  by_contra hnone
  push Not at hnone
  have hless : possessed objectives member j ≤ possessed objectives member i := fun n hn => ⟨hn.1, hnone n hn.1 hn.2⟩
  exact hlacks (hleast hj hless ⟨hname, hahead.1.2⟩).2

end Circle

/-! ## Empty frontiers -/

section Empty

variable (hα : Scalar.Ordered α) (hreadable : ∀ s ∈ candidates solutions, s.Readable objectives)

include hα hreadable

theorem extract_eq_nil_iff {frontier : List (Solution α)} (h : extract solutions objectives = .ok frontier) :
    frontier = [] ↔ AllDominated objectives solutions := by
  rw [extract_readable hα hreadable] at h
  cases h
  rw [List.map_eq_nil_iff, List.filter_eq_nil_iff]
  constructor
  · intro hnone s hs
    obtain ⟨hmem, hlives⟩ := mem_candidates.1 hs
    have hdominated := hnone s hmem
    rw [isUndominated_readable hreadable hmem] at hdominated
    push Not at hdominated
    obtain ⟨other, hother, hnot⟩ := hdominated hlives
    obtain ⟨t, ht⟩ := dominates_readable (hreadable other hother) (hreadable s hs)
    cases t with
    | false => exact absurd ht hnot
    | true => exact ⟨other, hother, ht⟩
  · intro hall s hmem hundominated
    obtain ⟨hlives, hnone⟩ := (isUndominated_readable hreadable hmem).1 hundominated
    obtain ⟨other, hother, hdominates⟩ := hall s (mem_candidates.2 ⟨hmem, hlives⟩)
    rw [hnone other hother] at hdominates
    cases hdominates

end Empty

/-- Candidates whose scores can be read, missing and non-finite ones included, have a frontier. It is
empty exactly if every candidate is dominated by another. Then there is a circle of three or more
different candidates, each dominated by the next one, in which the advantage of every step lies in an
objective that some member lacks; so it is not empty if of any two candidates one has every objective
that the other has. There is a best solution exactly if the frontier is not empty. -/
theorem frontier_of_readable (hα : Scalar.Ordered α) (objectives : List String) (solutions : List (Solution α))
    (hreadable : ∀ s ∈ candidates solutions, s.Readable objectives) (hsome : candidates solutions ≠ []) :
    ∃ frontier, extract solutions objectives = .ok frontier ∧
      (frontier = [] ↔ ∀ s ∈ candidates solutions, ∃ other ∈ candidates solutions,
        other.dominates s objectives = .ok true) ∧
      (frontier = [] → ∃ length member, 3 ≤ length ∧ Circle objectives solutions length member ∧
        ∀ i < length, ∀ n ∈ objectives, (member (i + 1)).Ahead (member i) n → ∃ j < length, ¬ (member j).Has n) ∧
      ((∀ a ∈ candidates solutions, ∀ b ∈ candidates solutions,
        (∀ n ∈ objectives, a.Has n → b.Has n) ∨ ∀ n ∈ objectives, b.Has n → a.Has n) → frontier ≠ []) ∧
      ∀ primary, (∀ s ∈ candidates solutions, ∃ x, Objective.oriented s.scores primary = .ok x) →
        ∃ best, Progress.bestOf primary frontier = .ok best ∧ (best = none ↔ frontier = []) := by
  refine ⟨_, extract_readable hα hreadable, ?_⟩
  have hempty := extract_eq_nil_iff hα hreadable (extract_readable hα hreadable)
  refine ⟨hempty, ?_, ?_, ?_⟩
  · -- if everything is dominated, whoever follows what dominates comes back to where they were
    intro hnone
    obtain ⟨length, member, hpos, hcircle⟩ := exists_circle (hempty.1 hnone) hsome
    exact ⟨length, member, hcircle.three_le hα hreadable hpos, hcircle,
      fun i hi n hn hahead => hcircle.lacks hα hreadable hi hn hahead⟩
  · -- on a circle two members differ in what they have, in either direction
    intro hnested hnone
    obtain ⟨length, member, hpos, hcircle⟩ := exists_circle (hempty.1 hnone) hsome
    obtain ⟨i, -, j, -, ⟨n, hn, hhas, hlacks⟩, m, hm, hhas', hlacks'⟩ := hcircle.exists_apart hα hreadable hpos
    rcases hnested _ (hcircle.candidate i) _ (hcircle.candidate j) with hle | hle
    · exact hlacks (hle n hn hhas)
    · exact hlacks' (hle m hm hhas')
  · intro primary horiented
    apply Progress.bestOf_ok
    intro s hs
    obtain ⟨t, ht, rfl⟩ := List.mem_map.1 hs
    obtain ⟨hmem, hbest⟩ := List.mem_filter.1 ht
    exact horiented t (mem_candidates.2 ⟨hmem, (isUndominated_iff.1 hbest).1⟩)

/-! ## Missing scores -/

local instance openPartsOfCircles : ExactArithmetic := default

def scoring (id : String) (scores : List (String × Extended)) : Solution Extended :=
  { id, assignment := [], inside := scores.map fun (name, x) => (.text name, .real x)
    outside := [], degradation := 0.0, isOptimal := false, error := none, windowsFailed := 0 }

-- the drawdown of the second one is not finite, as if it had none
def nestedScores : List (Solution Extended) :=
  [scoring "full" [("sharpe_ratio", .finite 1), ("max_drawdown", .finite 5)],
    scoring "partial" [("sharpe_ratio", .finite 2), ("max_drawdown", .undefined)],
    { scoring "failed" [("sharpe_ratio", .finite 9)] with error := some (.text "refused") }]

/-- Of two candidates one has all that the other has: the one that is ahead in what both have stays. -/
theorem nestedScores_frontier :
    (∀ s ∈ candidates nestedScores, s.Readable ["sharpe_ratio", "max_drawdown"]) ∧ candidates nestedScores ≠ [] ∧
      ∃ frontier, extract nestedScores ["sharpe_ratio", "max_drawdown"] = .ok frontier ∧ frontier ≠ [] ∧
        ∃ best, Progress.bestOf "max_drawdown" frontier = .ok (some best) := by
  let full := scoring "full" [("sharpe_ratio", .finite 1), ("max_drawdown", .finite 5)]
  let rest := scoring "partial" [("sharpe_ratio", .finite 2), ("max_drawdown", .undefined)]
  have hcandidates : candidates nestedScores = [full, rest] := rfl
  have hreadable : ∀ s ∈ candidates nestedScores, s.Readable ["sharpe_ratio", "max_drawdown"] := by
    rw [hcandidates]
    simp only [Readable, List.forall_mem_cons]
    exact ⟨⟨⟨_, rfl⟩, ⟨_, rfl⟩, nofun⟩, ⟨⟨_, rfl⟩, ⟨_, rfl⟩, nofun⟩, nofun⟩
  have hsome : candidates nestedScores ≠ [] := by simp [hcandidates]
  have hfull : ∀ n ∈ ["sharpe_ratio", "max_drawdown"], full.Has n := by
    simp only [Has, List.forall_mem_cons]
    exact ⟨⟨.finite 1, rfl⟩, ⟨.finite 5, rfl⟩, nofun⟩
  have horiented : ∀ s ∈ candidates nestedScores, ∃ x, Objective.oriented s.scores "max_drawdown" = .ok x := by
    simp only [hcandidates, List.forall_mem_cons]
    exact ⟨⟨_, rfl⟩, ⟨_, rfl⟩, nofun⟩
  obtain ⟨frontier, hextract, -, -, hnested, hbest⟩ := frontier_of_readable Extended.ordered _ _ hreadable hsome
  have hmembers : frontier ≠ [] := by
    apply hnested
    intro a ha b hb
    rw [hcandidates, List.mem_pair] at ha hb
    rcases hb with rfl | rfl
    · exact .inl fun n hn _ => hfull n hn
    · rcases ha with rfl | rfl
      · exact .inr fun n hn _ => hfull n hn
      · exact .inl fun n _ hhas => hhas
  obtain ⟨best, hfound, hnone⟩ := hbest "max_drawdown" horiented
  cases best with
  | none => exact absurd (hnone.1 rfl) hmembers
  | some best => exact ⟨hreadable, hsome, frontier, hextract, hmembers, best, hfound⟩

-- each two of them have one objective in common
def turningScores : List (Solution Extended) :=
  [scoring "first" [("sharpe_ratio", .finite 2), ("total_return", .finite 1)],
    scoring "second" [("sharpe_ratio", .finite 1), ("max_drawdown", .finite 1)],
    scoring "third" [("total_return", .finite 2), ("max_drawdown", .finite 2)]]

/-- The first of three solutions dominates the second, the second the third, and the third the first. -/
theorem turning_frontier :
    (∀ s ∈ turningScores, s.isFailed = false ∧ s.Readable ["sharpe_ratio", "total_return", "max_drawdown"]) ∧
      turningScores ≠ [] ∧ extract turningScores ["sharpe_ratio", "total_return", "max_drawdown"] = .ok [] ∧
      Progress.bestOf "sharpe_ratio" ([] : List (Solution Extended)) = .ok none := by
  refine ⟨?_, List.cons_ne_nil _ _, ?_, rfl⟩
  · simp only [turningScores, Readable, List.forall_mem_cons]
    exact ⟨⟨rfl, ⟨_, rfl⟩, ⟨_, rfl⟩, ⟨_, rfl⟩, nofun⟩, ⟨rfl, ⟨_, rfl⟩, ⟨_, rfl⟩, ⟨_, rfl⟩, nofun⟩,
      ⟨rfl, ⟨_, rfl⟩, ⟨_, rfl⟩, ⟨_, rfl⟩, nofun⟩, nofun⟩
  · have hcount : (extract turningScores ["sharpe_ratio", "total_return", "max_drawdown"]).toOption.map List.length =
        some 0 := by decide +kernel
    obtain ⟨frontier, hextract, hnone⟩ := ok_of_toOption hcount
    rw [hextract, List.eq_nil_of_length_eq_zero hnone]

end Frontier

end StrategyLab
