/-
The frontier of several solutions. As long as the scores of those that did not fail can be read
there is one, and `mark_eq` gives the marks it leaves, which do not depend on earlier marks
(`mark_unmarked`). If their scores are finite, it is what the order of their points makes of it: those
that are dominated by no other, and for every one that is left out, one that dominates it.
-/
import StrategyLab.Optimization.Progress
import StrategyLab.Proofs.Agree
import StrategyLab.Proofs.Optimization.Dominance

namespace StrategyLab

namespace Solution

/-- The solution with a mark. -/
def marked {α : Type} (s : Solution α) (isOptimal : Bool) : Solution α := { s with isOptimal }

@[simp] theorem isFailed_marked {α : Type} (s : Solution α) (b : Bool) : (s.marked b).isFailed = s.isFailed := rfl

@[simp] theorem isOptimal_marked {α : Type} (s : Solution α) (b : Bool) : (s.marked b).isOptimal = b := rfl

variable {α : Type} [Scalar α]

theorem dominatesFrom_marked (s t : Solution α) (b c better : Bool) (objectives : List String) :
    dominatesFrom (s.marked b) (t.marked c) better objectives = dominatesFrom s t better objectives := by
  induction objectives generalizing better with
  | nil => rfl
  | cons name rest ih =>
    unfold dominatesFrom
    simp only [ih]
    rfl

@[simp] theorem dominates_marked (s t : Solution α) (b c : Bool) (objectives : List String) :
    (s.marked b).dominates (t.marked c) objectives = s.dominates t objectives := dominatesFrom_marked s t b c false objectives

end Solution

/-! ## The best of a frontier -/

namespace Progress

variable {α : Type} [Scalar α] {objective : String} {frontier : List (Solution α)}

/-- A frontier whose scores can be oriented has a best solution, unless it is empty. -/
theorem bestOf_ok (h : ∀ s ∈ frontier, ∃ x, Objective.oriented s.scores objective = .ok x) :
    ∃ best, bestOf objective frontier = .ok best ∧ (best = none ↔ frontier = []) := by
  choose! score hscore using h
  unfold bestOf
  rw [mapM_beside hscore]
  cases frontier with
  | nil => exact ⟨none, rfl, by simp⟩
  | cons first rest => exact ⟨_, rfl, by simp⟩

/-- The best of a frontier is on it. -/
theorem bestOf_mem {best : Solution α} (h : bestOf objective frontier = .ok (some best)) : best ∈ frontier := by
  unfold bestOf at h
  obtain ⟨scored, hrun, h⟩ := bind_ok h
  rw [← fst_of_mapM_beside hrun]
  cases scored with
  | nil => cases h
  | cons first rest =>
    cases h
    exact List.mem_map_of_mem (foldl_larger_mem first rest)

end Progress

namespace Frontier

open Solution

variable {α : Type} [Scalar α] {objectives : List String}

theorem map_zipIdx {β γ : Type} (l : List β) (f : β → γ) : (l.zipIdx.map fun c => f c.1) = l.map f := by
  conv_rhs => rw [← List.zipIdx_map_fst 0 l, List.map_map]
  rfl

/-! ## Marks -/

/-- A solution at a position is not dominated by any of several at other positions. -/
def isBest (objectives : List String) (candidates : List (Solution α × Nat)) (s : Solution α) (position : Nat) : Bool :=
  !s.isFailed && candidates.all fun c => decide (c.2 = position) || !beats objectives c.1 s

/-- Those that did not fail. -/
def alive (placed : List (Solution α × Nat)) : List (Solution α × Nat) := placed.filter fun c => !c.1.isFailed

omit [Scalar α] in
theorem mem_alive {placed : List (Solution α × Nat)} {c : Solution α × Nat} :
    c ∈ alive placed ↔ c ∈ placed ∧ c.1.isFailed = false := by
  simp [alive]

theorem isDominated_eq {s : Solution α} (hs : s.Readable objectives) (position : Nat)
    (candidates : List (Solution α × Nat)) (hcandidates : ∀ c ∈ candidates, c.1.Readable objectives) :
    isDominated s position objectives candidates =
      .ok (!candidates.all fun c => decide (c.2 = position) || !beats objectives c.1 s) := by
  induction candidates with
  | nil => rfl
  | cons c rest ih =>
    obtain ⟨other, i⟩ := c
    have hrest := ih fun c hc => hcandidates c (List.mem_cons_of_mem _ hc)
    unfold isDominated
    by_cases hi : i = position
    · rw [if_pos hi]
      change isDominated s position objectives rest = _
      rw [hrest]
      simp [hi]
    · rw [if_neg hi, dominates_eq (hcandidates _ List.mem_cons_self) hs]
      cases hbeats : beats objectives other s
      · change isDominated s position objectives rest = _
        rw [hrest]
        simp [hbeats]
      · change Except.ok true = _
        simp [hi, hbeats]

theorem markAmong_eq {candidates : List (Solution α × Nat)}
    (hcandidates : ∀ c ∈ candidates, c.1.Readable objectives) (placed : List (Solution α × Nat))
    (hplaced : ∀ c ∈ placed, c.1.isFailed = false → c.1.Readable objectives) :
    markAmong candidates objectives placed =
      .ok (placed.map fun c => c.1.marked (isBest objectives candidates c.1 c.2)) := by
  induction placed with
  | nil => rfl
  | cons c rest ih =>
    obtain ⟨s, position⟩ := c
    have hrest := ih fun c hc => hplaced c (List.mem_cons_of_mem _ hc)
    unfold markAmong
    rw [hrest]
    cases hfailed : s.isFailed
    · rw [if_neg (by simp), isDominated_eq (hplaced _ List.mem_cons_self hfailed) _ _ hcandidates]
      change Except.ok (s.marked _ :: _) = _
      simp [isBest, hfailed]
    · rw [if_pos rfl]
      change Except.ok (s.marked false :: _) = _
      simp [isBest, hfailed]

theorem mark_eq (solutions : List (Solution α))
    (hreadable : ∀ s ∈ solutions, s.isFailed = false → s.Readable objectives) :
    mark solutions objectives = .ok (solutions.zipIdx.map fun c =>
      c.1.marked (isBest objectives (alive solutions.zipIdx) c.1 c.2)) := by
  apply markAmong_eq
  · intro c hc
    obtain ⟨hc, hlives⟩ := mem_alive.1 hc
    exact hreadable _ (List.fst_mem_of_mem_zipIdx hc) hlives
  · intro c hc
    exact hreadable _ (List.fst_mem_of_mem_zipIdx hc)

/-! ## Earlier marks -/

theorem isDominated_marked (s : Solution α) (position : Nat) (candidates : List (Solution α × Nat)) :
    isDominated (s.marked false) position objectives (candidates.map fun c => (c.1.marked false, c.2)) =
      isDominated s position objectives candidates := by
  induction candidates with
  | nil => rfl
  | cons c rest ih =>
    rw [List.map_cons]
    unfold isDominated
    rw [ih]
    simp only [dominates_marked]

theorem markAmong_marked (candidates placed : List (Solution α × Nat)) :
    markAmong (candidates.map fun c => (c.1.marked false, c.2)) objectives (placed.map fun c => (c.1.marked false, c.2)) =
      markAmong candidates objectives placed := by
  induction placed with
  | nil => rfl
  | cons c rest ih =>
    rw [List.map_cons]
    unfold markAmong
    rw [ih, isDominated_marked]
    rfl

/-- Marks do not depend on earlier ones. -/
theorem mark_unmarked (solutions : List (Solution α)) :
    mark (solutions.map (marked · false)) objectives = mark solutions objectives := by
  have hplaced : (solutions.map (marked · false)).zipIdx = solutions.zipIdx.map fun c => (c.1.marked false, c.2) := by
    rw [List.zipIdx_map]
    rfl
  have halive : (solutions.zipIdx.map fun c => (c.1.marked false, c.2)).filter (fun c => !c.1.isFailed) =
      (solutions.zipIdx.filter fun c => !c.1.isFailed).map fun c => (c.1.marked false, c.2) := by
    rw [List.filter_map]
    rfl
  unfold mark
  rw [hplaced]
  dsimp only
  rw [halive, markAmong_marked]

theorem markAmong_unmarked {candidates placed : List (Solution α × Nat)} {found : List (Solution α)}
    (h : markAmong candidates objectives placed = .ok found) :
    found.map (marked · false) = placed.map fun c => c.1.marked false := by
  induction placed generalizing found with
  | nil =>
    cases h
    rfl
  | cons c rest ih =>
    unfold markAmong at h
    -- whether or not the first solution is asked about, it gets some mark
    obtain ⟨dominated, h⟩ : ∃ dominated : Bool, (do
        let others ← markAmong candidates objectives rest
        pure (c.1.marked (!dominated) :: others)) = Except.ok found := by
      split at h
      · exact ⟨true, h⟩
      · obtain ⟨dominated, -, h⟩ := bind_ok h
        exact ⟨dominated, h⟩
    obtain ⟨others, hothers, h⟩ := bind_ok h
    cases h
    rw [List.map_cons, List.map_cons, ih hothers]
    rfl

/-- Nothing but marks changes. -/
theorem unmarked_mark {solutions found : List (Solution α)} (h : mark solutions objectives = .ok found) :
    found.map (marked · false) = solutions.map (marked · false) := by
  rw [markAmong_unmarked h]
  exact map_zipIdx solutions (marked · false)

theorem mark_names {solutions found : List (Solution α)} (h : mark solutions objectives = .ok found) :
    found.map (·.id) = solutions.map (·.id) := by
  have hunmarked := congrArg (List.map (·.id)) (unmarked_mark h)
  rwa [List.map_map, List.map_map] at hunmarked

theorem members_alive {solutions found : List (Solution α)} (h : mark solutions objectives = .ok found)
    (hreadable : ∀ s ∈ solutions, s.isFailed = false → s.Readable objectives) :
    ∀ s ∈ members found, s.isFailed = false := by
  intro s hs
  rw [mark_eq solutions hreadable] at h
  cases h
  obtain ⟨hs, hoptimal⟩ := List.mem_filter.1 hs
  obtain ⟨c, -, rfl⟩ := List.mem_map.1 hs
  rw [isFailed_marked]
  rw [isOptimal_marked] at hoptimal
  simpa using (Bool.and_eq_true_iff.1 hoptimal).1

/-! ## Undominated candidates -/

/-- Those that did not fail. -/
def candidates (solutions : List (Solution α)) : List (Solution α) := solutions.filter fun s => !s.isFailed

omit [Scalar α] in
theorem mem_candidates {solutions : List (Solution α)} {s : Solution α} :
    s ∈ candidates solutions ↔ s ∈ solutions ∧ s.isFailed = false := by
  simp [candidates]

section Readable

variable (hα : Scalar.Ordered α) {solutions : List (Solution α)}
  (hreadable : ∀ s ∈ candidates solutions, s.Readable objectives)

include hreadable

theorem isUndominated_readable {s : Solution α} (hs : s ∈ solutions) : isUndominated objectives solutions s = true ↔
    s.isFailed = false ∧ ∀ other ∈ candidates solutions, other.dominates s objectives = .ok false := by
  rw [isUndominated_iff]
  refine and_congr_right fun hlives => ?_
  have hbeats : ∀ other ∈ candidates solutions, other.dominates s objectives = .ok (beats objectives other s) :=
    fun other hother => dominates_eq (hreadable other hother) (hreadable s (mem_candidates.2 ⟨hs, hlives⟩))
  constructor
  · intro h other hother
    obtain ⟨hmem, hlives'⟩ := mem_candidates.1 hother
    rw [hbeats other hother, h other hmem hlives']
  · intro h other hmem hlives'
    have hother := mem_candidates.2 ⟨hmem, hlives'⟩
    exact Except.ok.inj ((hbeats other hother).symm.trans (h other hother))

include hα

/-- No solution dominates itself, so it does not matter at which position one is. -/
theorem isBest_eq {s : Solution α} {position : Nat} (hs : (s, position) ∈ solutions.zipIdx) :
    isBest objectives (alive solutions.zipIdx) s position = isUndominated objectives solutions s := by
  have hmem := List.fst_mem_of_mem_zipIdx hs
  rw [Bool.eq_iff_iff, isUndominated_iff]
  simp only [isBest, Bool.and_eq_true, Bool.not_eq_true', List.all_eq_true, Bool.or_eq_true, decide_eq_true_eq]
  refine and_congr_right fun hlives => ⟨fun h other hother hother' => ?_, fun h c hc => .inr ?_⟩
  · obtain ⟨j, hj, rfl⟩ := List.getElem_of_mem hother
    rcases h (solutions[j], j) (mem_alive.2 ⟨List.mk_mem_zipIdx_iff_getElem?.2 (List.getElem?_eq_getElem hj), hother'⟩)
      with heq | hbeats
    · cases heq
      rw [List.mk_mem_zipIdx_iff_getElem?, List.getElem?_eq_getElem hj, Option.some.injEq] at hs
      rw [hs]
      exact beats_self hα (hreadable s (mem_candidates.2 ⟨hmem, hlives⟩))
    · exact hbeats
  · obtain ⟨hc, hlives'⟩ := mem_alive.1 hc
    exact h _ (List.fst_mem_of_mem_zipIdx hc) hlives'

theorem mark_readable : mark solutions objectives =
    .ok (solutions.map fun s => s.marked (isUndominated objectives solutions s)) := by
  rw [mark_eq solutions fun s hs hlives => hreadable s (mem_candidates.2 ⟨hs, hlives⟩), Except.ok.injEq]
  have hbest : ∀ c ∈ solutions.zipIdx,
      c.1.marked (isBest objectives (alive solutions.zipIdx) c.1 c.2) =
        c.1.marked (isUndominated objectives solutions c.1) := by
    intro c hc
    rw [isBest_eq hα hreadable hc]
  rw [List.map_congr_left hbest]
  exact map_zipIdx solutions fun s => s.marked (isUndominated objectives solutions s)

/-- The frontier: the undominated solutions in their order, all of them marked. -/
theorem extract_readable : extract solutions objectives =
    .ok ((solutions.filter (isUndominated objectives solutions)).map fun s => s.marked true) := by
  unfold extract
  rw [mark_readable hα hreadable]
  change Except.ok _ = _
  rw [Except.ok.injEq]
  unfold members
  rw [List.filter_map]
  refine List.map_congr_left fun s hs => ?_
  have hbest : isUndominated objectives solutions s = true := (List.mem_filter.1 hs).2
  rw [hbest]

end Readable

/-! ## Finite scores -/

section Scored

variable (hα : Scalar.Ordered α) {solutions : List (Solution α)}
  (hscored : ∀ s ∈ candidates solutions, s.Scored objectives)

include hscored

theorem candidates_readable : ∀ s ∈ candidates solutions, s.Readable objectives := fun s hs => (hscored s hs).readable

theorem isUndominated_scored {s : Solution α} (hs : s ∈ solutions) : isUndominated objectives solutions s = true ↔
    s.isFailed = false ∧ ∀ other ∈ candidates solutions, other.dominates s objectives = .ok false :=
  isUndominated_readable (candidates_readable hscored) hs

include hα

theorem mark_scored : mark solutions objectives =
    .ok (solutions.map fun s => s.marked (isUndominated objectives solutions s)) :=
  mark_readable hα (candidates_readable hscored)

theorem extract_scored : extract solutions objectives =
    .ok ((solutions.filter (isUndominated objectives solutions)).map fun s => s.marked true) :=
  extract_readable hα (candidates_readable hscored)

/-- A candidate that is dominated is dominated by a member. -/
theorem dominated_by_member {s : Solution α} (hs : s ∈ candidates solutions)
    (hdominated : isUndominated objectives solutions s = false) :
    ∃ best ∈ solutions, isUndominated objectives solutions best = true ∧ best.dominates s objectives = .ok true := by
  obtain ⟨hmem, hlives⟩ := mem_candidates.1 hs
  obtain ⟨best, hbest, hundominated, hbeats⟩ :=
    exists_undominated hα (fun t ht hlives' => hscored t (mem_candidates.2 ⟨ht, hlives'⟩)) hmem hlives hdominated
  have hcandidate := mem_candidates.2 ⟨hbest, (isUndominated_iff.1 hundominated).1⟩
  refine ⟨best, hbest, hundominated, ?_⟩
  rw [dominates_eq (hscored best hcandidate).readable (hscored s hs).readable, hbeats]

theorem exists_member (hsome : candidates solutions ≠ []) :
    ∃ best ∈ solutions, isUndominated objectives solutions best = true := by
  obtain ⟨s, hs⟩ := List.exists_mem_of_ne_nil _ hsome
  cases hundominated : isUndominated objectives solutions s with
  | true => exact ⟨s, (mem_candidates.1 hs).1, hundominated⟩
  | false =>
    obtain ⟨best, hbest, hundominated, -⟩ := dominated_by_member hα hscored hs hundominated
    exact ⟨best, hbest, hundominated⟩

/-- A frontier is its own frontier. -/
theorem extract_members :
    extract ((solutions.filter (isUndominated objectives solutions)).map (·.marked true)) objectives =
      .ok ((solutions.filter (isUndominated objectives solutions)).map (·.marked true)) := by
  have hmember : ∀ m ∈ (solutions.filter (isUndominated objectives solutions)).map (·.marked true),
      ∃ s ∈ solutions, isUndominated objectives solutions s = true ∧ s.marked true = m := by
    intro m hm
    obtain ⟨s, hs, rfl⟩ := List.mem_map.1 hm
    obtain ⟨hs, hbest⟩ := List.mem_filter.1 hs
    exact ⟨s, hs, hbest, rfl⟩
  have hkept : ∀ m ∈ (solutions.filter (isUndominated objectives solutions)).map (·.marked true),
      isUndominated objectives ((solutions.filter (isUndominated objectives solutions)).map (·.marked true)) m = true := by
    intro m hm
    obtain ⟨s, hs, hbest, rfl⟩ := hmember m hm
    rw [isUndominated_iff] at hbest ⊢
    refine ⟨hbest.1, fun other hother hlives => ?_⟩
    obtain ⟨t, ht, -, rfl⟩ := hmember other hother
    unfold beats
    rw [dominates_marked]
    exact hbest.2 t ht hlives
  rw [extract_scored hα, List.filter_eq_self.2 hkept, List.map_map]
  · rfl
  · intro m hm
    obtain ⟨hm, hlives⟩ := mem_candidates.1 hm
    obtain ⟨s, hs, -, rfl⟩ := hmember m hm
    exact hscored s (mem_candidates.2 ⟨hs, hlives⟩)

end Scored

/-- Among candidates with finite scores dominance is a strict order. Their frontier consists of those
that none of them dominates, in order and wherever the same scores occur, and these are the marked
ones; there is one if there is a candidate, every other candidate is dominated by a member, and a
frontier is its own frontier. -/
theorem frontier_of_scored (hα : Scalar.Ordered α) (objectives : List String) (solutions : List (Solution α))
    (hscored : ∀ s ∈ candidates solutions, s.Scored objectives) :
    (∀ a ∈ candidates solutions, ∀ b ∈ candidates solutions, ∃ t, a.dominates b objectives = .ok t) ∧
    (∀ a ∈ candidates solutions, a.dominates a objectives = .ok false) ∧
    (∀ a ∈ candidates solutions, ∀ b ∈ candidates solutions,
      a.dominates b objectives = .ok true → b.dominates a objectives = .ok false) ∧
    (∀ a ∈ candidates solutions, ∀ b ∈ candidates solutions, ∀ c ∈ candidates solutions,
      a.dominates b objectives = .ok true → b.dominates c objectives = .ok true →
        a.dominates c objectives = .ok true) ∧
    ∃ isMember : Solution α → Bool, ∃ frontier,
      (∀ s ∈ solutions, isMember s = true ↔ s.isFailed = false ∧
        ∀ other ∈ candidates solutions, other.dominates s objectives = .ok false) ∧
      extract solutions objectives = .ok frontier ∧
      frontier = (solutions.filter isMember).map (·.marked true) ∧
      mark solutions objectives = .ok (solutions.map fun s => s.marked (isMember s)) ∧
      (candidates solutions ≠ [] → frontier ≠ []) ∧
      (∀ s ∈ candidates solutions, isMember s = false → ∃ best ∈ frontier, best.dominates s objectives = .ok true) ∧
      extract frontier objectives = .ok frontier := by
  -- with scores in all objectives to dominate is to have the larger point, which is a strict order
  have hless : ∀ a ∈ candidates solutions, ∀ b ∈ candidates solutions,
      (a.dominates b objectives = .ok true ↔ b.point objectives < a.point objectives) :=
    fun a ha b hb => dominates_iff hα (hscored a ha) (hscored b hb)
  have hnot : ∀ a ∈ candidates solutions, ∀ b ∈ candidates solutions,
      (a.dominates b objectives = .ok false ↔ ¬ b.point objectives < a.point objectives) :=
    fun a ha b hb => dominates_false_iff hα (hscored a ha) (hscored b hb)
  refine ⟨?_, ?_, ?_, ?_, isUndominated objectives solutions, _, fun s hs => isUndominated_scored hscored hs,
    extract_scored hα hscored, rfl, mark_scored hα hscored, ?_, ?_, extract_members hα hscored⟩
  · intro a ha b hb
    exact dominates_readable (hscored a ha).readable (hscored b hb).readable
  · intro a ha
    exact (hnot a ha a ha).2 (lt_irrefl _)
  · intro a ha b hb h
    exact (hnot b hb a ha).2 ((hless a ha b hb).1 h).not_gt
  · intro a ha b hb c hc hab hbc
    exact (hless a ha c hc).2 (((hless b hb c hc).1 hbc).trans ((hless a ha b hb).1 hab))
  · intro hsome
    obtain ⟨best, hbest, hmember⟩ := exists_member hα hscored hsome
    exact List.ne_nil_of_mem (List.mem_map_of_mem (List.mem_filter.2 ⟨hbest, hmember⟩))
  · intro s hs hdominated
    obtain ⟨best, hbest, hmember, hbeats⟩ := dominated_by_member hα hscored hs hdominated
    refine ⟨best.marked true, List.mem_map_of_mem (List.mem_filter.2 ⟨hbest, hmember⟩), ?_⟩
    rw [show s = s.marked s.isOptimal from rfl, dominates_marked, hbeats]

/-! ## Five solutions -/

local instance openPartsOfFrontiers : ExactArithmetic := default

def weighed (id : String) (sharpe drawdown : ℚ) : Solution ℚ :=
  { id, assignment := [], inside := [(.text "sharpe_ratio", .real sharpe), (.text "max_drawdown", .real drawdown)]
    outside := [], degradation := 0, isOptimal := false, error := none, windowsFailed := 0 }

-- the first one carries a mark of an earlier frontier, and the last one would dominate all others
def fiveWeighed : List (Solution ℚ) :=
  [(weighed "behind" 1 (1 / 5)).marked true, weighed "ahead" 2 (1 / 10), weighed "calm" 0 (1 / 20),
    weighed "level" 2 (1 / 10), { weighed "failed" 9 0 with error := some (.text "refused") }]

/-- Two objectives, one of which is minimized, over five solutions of which one failed. -/
theorem fiveWeighed_frontier :
    (∀ s ∈ candidates fiveWeighed, s.Scored ["sharpe_ratio", "max_drawdown"]) ∧
      ∃ frontier, extract fiveWeighed ["sharpe_ratio", "max_drawdown"] = .ok frontier ∧
        frontier.map (·.id) = ["ahead", "calm", "level"] ∧
        extract frontier ["sharpe_ratio", "max_drawdown"] = .ok frontier := by
  have hscored : ∀ s ∈ candidates fiveWeighed, s.Scored ["sharpe_ratio", "max_drawdown"] := by
    have hweighed : ∀ id sharpe drawdown, (weighed id sharpe drawdown).Scored ["sharpe_ratio", "max_drawdown"] := by
      intro id sharpe drawdown
      simp only [Scored, List.forall_mem_cons]
      exact ⟨⟨sharpe, rfl⟩, ⟨drawdown, rfl⟩, nofun⟩
    intro s hs
    have : s ∈ [(weighed "behind" 1 (1 / 5)).marked true, weighed "ahead" 2 (1 / 10), weighed "calm" 0 (1 / 20),
      weighed "level" 2 (1 / 10)] := hs
    simp only [List.mem_cons, List.not_mem_nil, or_false] at this
    rcases this with rfl | rfl | rfl | rfl
    · exact hweighed "behind" _ _
    · exact hweighed "ahead" _ _
    · exact hweighed "calm" _ _
    · exact hweighed "level" _ _
  refine ⟨hscored, ?_⟩
  obtain ⟨-, -, -, -, -, frontier, -, hextract, -, -, -, -, hagain⟩ :=
    frontier_of_scored Scalar.ordered_exact _ _ hscored
  refine ⟨frontier, hextract, ?_, hagain⟩
  have hids : (extract fiveWeighed ["sharpe_ratio", "max_drawdown"]).toOption.map (·.map (·.id)) =
      some ["ahead", "calm", "level"] := by decide +kernel
  rw [hextract] at hids
  exact Option.some.inj hids

end Frontier

end StrategyLab
