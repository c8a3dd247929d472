/-
The best solution that is told. It is looked for on the frontier alone, and by the oriented score of the
first objective. Nothing better is left out: the oriented scores have the order by which solutions are
compared (`Measured.oriented`), and what is dominated is dominated by a member of the frontier, which is no
worse in any objective. So the best of the frontier is the best of all solutions that did not fail
(`progress_best`).
-/
import StrategyLab.Proofs.Optimization.Budget

namespace StrategyLab

/-! ## Oriented scores -/

/-- The opposite of a scalar stands for the opposite number. -/
def Scalar.Symmetric (α : Type) [Scalar α] : Prop :=
  ∀ {x : α} {q : ℚ}, rational? x = some q → rational? (-x) = some (-q)

theorem Scalar.symmetric_exact [ExactArithmetic] : Scalar.Symmetric ℚ := by
  intro x q h
  cases h
  rfl

theorem Extended.symmetric [ExactArithmetic] : Scalar.Symmetric Extended := by
  intro x q h
  cases x <;> cases h
  rfl

variable {ω σ α : Type} [Scalar α]

namespace Solution

variable {objectives : List String} {s : Solution α}

/-- Every objective has a finite number as its score: a scalar, or a whole number that fits in a word. -/
def Measured (objectives : List String) (s : Solution α) : Prop :=
  ∀ name ∈ objectives, ∃ x y, (Object.get? s.scores name = some (.num x) ∨ Object.get? s.scores name = some (.narrow x)) ∧
    x.value? = some y ∧ Scalar.isFinite y = true ∧ ∀ n, x = .whole n → Objective.fitsWord n = true

/-- Scores are read in one way to compare two solutions, and in another one to orient them. -/
theorem Measured.read (h : s.Measured objectives) {name : String} (hname : name ∈ objectives) :
    ∃ y, Scalar.isFinite y = true ∧ s.finiteScore name = .ok (some y) ∧
      Objective.oriented s.scores name = .ok (Objective.orient name y) := by
  obtain ⟨x, y, hscore, hvalue, hfinite, hfits⟩ := h name hname
  have hreal : Value.realOfNum x = .ok y := by
    unfold Value.realOfNum
    rw [hvalue]
  have hfiniteScore : s.finiteScore name = (Value.realOfNum x >>= fun y => pure (if Scalar.isFinite y then some y else none)) := by
    unfold finiteScore
    rcases hscore with hscore | hscore <;> rw [hscore] <;> rfl
  have hnumber : Objective.number? (Value.ofOption (Object.get? s.scores name)) = .ok (some x) := by
    rcases hscore with hscore | hscore <;> rw [hscore] <;>
      cases x with
      | real z => rfl
      | whole n => exact if_pos (hfits n rfl)
  have hsame : x.value = y := by
    cases x with
    | real z => exact Option.some.inj hvalue
    | whole n =>
      change Scalar.ofInt n = y
      unfold Scalar.ofInt
      rw [show Scalar.ofInt? n = some y from hvalue]
  refine ⟨y, hfinite, ?_, ?_⟩
  · rw [hfiniteScore, hreal]
    change Except.ok (if Scalar.isFinite y then some y else none) = _
    rw [if_pos hfinite]
  · unfold Objective.oriented
    rw [hnumber]
    change Except.ok (if Scalar.isFinite x.value then Objective.orient name x.value else _) = _
    rw [hsame, if_pos hfinite]

theorem Measured.scored (h : s.Measured objectives) : s.Scored objectives := fun _ hname => by
  obtain ⟨y, -, hscore, -⟩ := h.read hname
  exact ⟨y, hscore⟩

/-- An oriented score stands for the number by which solutions are compared. -/
theorem Measured.oriented (hα : Scalar.Ordered α) (hopposite : Scalar.Symmetric α) (h : s.Measured objectives)
    {name : String} (hname : name ∈ objectives) :
    ∃ x, Objective.oriented s.scores name = .ok x ∧ Scalar.rational? x = some (s.standing name) := by
  obtain ⟨y, hfinite, hscore, horiented⟩ := h.read hname
  obtain ⟨q, hq⟩ := hα.rational y hfinite
  refine ⟨_, horiented, ?_⟩
  unfold standing Objective.orient
  rw [hscore]
  dsimp only
  rw [hq]
  split
  · exact hq
  · exact hopposite hq

/-- A solution that dominates another is no worse in any objective. -/
theorem standing_le_of_dominates (hα : Scalar.Ordered α) {t : Solution α} (hs : s.Scored objectives)
    (ht : t.Scored objectives) (h : t.dominates s objectives = .ok true) {name : String} (hname : name ∈ objectives) :
    s.standing name ≤ t.standing name := ((dominates_iff hα ht hs).1 h).le ⟨name, hname⟩

end Solution

/-! ## The best of a frontier -/

namespace Progress

variable {objective : String} {frontier : List (Solution α)}

/-- None of several scored solutions is ahead of the first largest one. -/
theorem foldl_best (rank : Solution α × α → ℚ) {first : Solution α × α} {rest : List (Solution α × α)}
    (hrank : ∀ x ∈ first :: rest, ∀ y ∈ first :: rest, x.2 < y.2 ↔ rank x < rank y) :
    ∀ x ∈ first :: rest, rank x ≤ rank (rest.foldl (fun best x => if best.2 < x.2 then x else best) first) := by
  induction rest generalizing first with
  | nil =>
    intro x hx
    rw [List.mem_singleton.1 hx]
    rfl
  | cons y rest ih =>
    have hpair := hrank first List.mem_cons_self y (List.mem_cons_of_mem _ List.mem_cons_self)
    obtain ⟨next, hnext, hmem, hfirst, hy⟩ : ∃ next, (if first.2 < y.2 then y else first) = next ∧
        next ∈ [first, y] ∧ rank first ≤ rank next ∧ rank y ≤ rank next := by
      by_cases hlt : first.2 < y.2
      · exact ⟨y, if_pos hlt, by simp, (hpair.1 hlt).le, le_rfl⟩
      · exact ⟨first, if_neg hlt, by simp, le_rfl, not_lt.1 (mt hpair.2 hlt)⟩
    have hsub : ∀ x ∈ next :: rest, x ∈ first :: y :: rest := by
      intro x hx
      rcases List.mem_cons.1 hx with rfl | hx
      · exact List.mem_append_left rest hmem
      · exact List.mem_cons_of_mem _ (List.mem_cons_of_mem _ hx)
    obtain ⟨hgreater, hrest⟩ := List.forall_mem_cons.1 (ih fun x hx z hz => hrank x (hsub x hx) z (hsub z hz))
    rw [List.foldl_cons, hnext]
    exact List.forall_mem_cons.2 ⟨hfirst.trans hgreater, List.forall_mem_cons.2 ⟨hy.trans hgreater, hrest⟩⟩

/-- A frontier whose members have numbers as their scores has a best solution, which no member is ahead of. -/
theorem bestOf_greatest (hα : Scalar.Ordered α) (hne : frontier ≠ [])
    (h : ∀ s ∈ frontier, ∃ x, Objective.oriented s.scores objective = .ok x ∧
      Scalar.rational? x = some (s.standing objective)) :
    ∃ best ∈ frontier, bestOf objective frontier = .ok (some best) ∧
      ∀ s ∈ frontier, s.standing objective ≤ best.standing objective := by
  choose! score hscore hstands using h
  have hscored : (frontier.mapM fun s => do
      let x ← Objective.oriented s.scores objective
      pure (s, x)) = Except.ok (ε := ValueFault α) (frontier.map fun s => (s, score s)) := mapM_beside hscore
  obtain ⟨first, rest, rfl⟩ := List.exists_cons_of_ne_nil hne
  have hfound : ∃ best, bestOf objective (first :: rest) = .ok (some best) ∧
      best = ((rest.map fun s => (s, score s)).foldl (fun best x => if best.2 < x.2 then x else best)
        (first, score first)).1 := by
    refine ⟨_, ?_, rfl⟩
    unfold bestOf
    rw [hscored]
    rfl
  obtain ⟨best, hbest, heq⟩ := hfound
  refine ⟨best, bestOf_mem hbest, hbest, fun s hs => ?_⟩
  rw [heq]
  have hrank : ∀ x ∈ (first :: rest).map fun s => (s, score s), ∀ y ∈ (first :: rest).map fun s => (s, score s),
      x.2 < y.2 ↔ x.1.standing objective < y.1.standing objective := by
    intro x hx y hy
    obtain ⟨a, ha, rfl⟩ := List.mem_map.1 hx
    obtain ⟨b, hb, rfl⟩ := List.mem_map.1 hy
    exact hα.less (hstands a ha) (hstands b hb)
  exact foldl_best (fun x => x.1.standing objective) hrank (s, score s)
    (List.mem_map_of_mem (f := fun s => (s, score s)) hs)

end Progress

/-! ## The best of all solutions -/

namespace Frontier

open Solution

variable {objectives : List String} {solutions : List (Solution α)}

/-- In every objective some member of the frontier is as good as any given candidate. -/
theorem member_as_good (hα : Scalar.Ordered α) (hscored : ∀ s ∈ candidates solutions, s.Scored objectives)
    {s : Solution α} (hs : s ∈ candidates solutions) {name : String} (hname : name ∈ objectives) :
    ∃ t ∈ solutions, isUndominated objectives solutions t = true ∧ s.standing name ≤ t.standing name := by
  cases hundominated : isUndominated objectives solutions s with
  | true => exact ⟨s, (mem_candidates.1 hs).1, hundominated, le_rfl⟩
  | false =>
    obtain ⟨t, ht, hmember, hdominates⟩ := dominated_by_member hα hscored hs hundominated
    have hcandidate := mem_candidates.2 ⟨ht, (isUndominated_iff.1 hmember).1⟩
    exact ⟨t, ht, hmember, standing_le_of_dominates hα (hscored s hs) (hscored t hcandidate) hdominates hname⟩

/-- The best of the frontier in one of its objectives is the best of all candidates. -/
theorem best_of_members (hα : Scalar.Ordered α) (hopposite : Scalar.Symmetric α)
    (hmeasured : ∀ s ∈ candidates solutions, s.Measured objectives) (hsome : candidates solutions ≠ []) {name : String}
    (hname : name ∈ objectives) : ∃ frontier, ∃ best ∈ frontier, extract solutions objectives = .ok frontier ∧
      Progress.bestOf name frontier = .ok (some best) ∧ (∃ s ∈ candidates solutions, best = s.marked true) ∧
        ∀ s ∈ candidates solutions, s.standing name ≤ best.standing name := by
  have hscored : ∀ s ∈ candidates solutions, s.Scored objectives := fun s hs => (hmeasured s hs).scored
  obtain ⟨frontier, hfrontier⟩ : ∃ frontier, frontier =
      (solutions.filter (isUndominated objectives solutions)).map fun s => s.marked true := ⟨_, rfl⟩
  have hmember : ∀ t ∈ frontier, ∃ s ∈ candidates solutions, t = s.marked true := by
    intro t ht
    rw [hfrontier] at ht
    obtain ⟨s, hs, rfl⟩ := List.mem_map.1 ht
    obtain ⟨hs, hundominated⟩ := List.mem_filter.1 hs
    exact ⟨s, mem_candidates.2 ⟨hs, (isUndominated_iff.1 hundominated).1⟩, rfl⟩
  have hgood : ∀ s ∈ candidates solutions, ∃ t ∈ frontier, s.standing name ≤ t.standing name := by
    intro s hs
    obtain ⟨t, ht, hundominated, hle⟩ := member_as_good hα hscored hs hname
    refine ⟨t.marked true, ?_, hle⟩
    rw [hfrontier]
    exact List.mem_map_of_mem (List.mem_filter.2 ⟨ht, hundominated⟩)
  have hne : frontier ≠ [] := by
    obtain ⟨s, hs⟩ := List.exists_mem_of_ne_nil _ hsome
    obtain ⟨t, ht, -⟩ := hgood s hs
    exact List.ne_nil_of_mem ht
  have horiented : ∀ t ∈ frontier, ∃ x, Objective.oriented t.scores name = .ok x ∧
      Scalar.rational? x = some (t.standing name) := by
    intro t ht
    obtain ⟨s, hs, rfl⟩ := hmember t ht
    exact (hmeasured s hs).oriented hα hopposite hname
  obtain ⟨best, hbest, hfound, hgreatest⟩ := Progress.bestOf_greatest hα hne horiented
  refine ⟨frontier, best, hbest, hfrontier ▸ extract_scored hα hscored, hfound, hmember best hbest, fun s hs => ?_⟩
  obtain ⟨t, ht, hle⟩ := hgood s hs
  exact hle.trans (hgreatest t ht)

end Frontier

namespace Optimizer

open Stage Frontier Solution

/-- Among solutions of which those that did not fail have a finite number for every objective, and at least
one did not fail, progress tells a best solution. It is on the frontier, did not fail, and its oriented score of
the first objective is the largest of all solutions that did not fail. -/
theorem progress_best (hα : Scalar.Ordered α) (hopposite : Scalar.Symmetric α) (S : Surroundings (StateM ω) σ α)
    (c : SearchConfig α) (hobjectives : c.objectives ≠ []) (o : Optimizer α) (w : ω)
    (hmeasured : ∀ s ∈ candidates o.solutions, s.Measured c.objectives) (hsome : candidates o.solutions ≠ []) :
    Ensures (progress S c) o w fun p _ _ => extract o.solutions c.objectives = .ok p.frontier ∧
      ∃ best ∈ p.frontier, p.best = some best ∧ best.isFailed = false ∧ (∃ s ∈ o.solutions, best = s.marked true) ∧
        ∃ top greatest, Objective.oriented best.scores c.primary = .ok top ∧ Scalar.rational? top = some greatest ∧
          ∀ s ∈ candidates o.solutions, ∃ x q, Objective.oriented s.scores c.primary = .ok x ∧
            Scalar.rational? x = some q ∧ q ≤ greatest := by
  have hprimary : c.primary ∈ c.objectives := by
    unfold SearchConfig.primary
    rw [List.headD_eq_head?_getD, List.head?_eq_some_head hobjectives]
    exact List.head_mem hobjectives
  obtain ⟨frontier, best, hbest, hextract, hfound, ⟨s, hs, hmarked⟩, hgreatest⟩ :=
    best_of_members hα hopposite hmeasured hsome hprimary
  -- the frontier that is told is the one that the marks single out
  have hends : Ensures (progress S c) o w fun p _ _ => p.frontier = frontier ∧ p.best = some best := by
    have hmark := mark_scored hα fun s hs => (hmeasured s hs).scored
    have hmembers : members (o.solutions.map fun s => s.marked (isUndominated c.objectives o.solutions s)) = frontier := by
      unfold extract at hextract
      rw [hmark] at hextract
      exact Except.ok.inj hextract
    rw [← hmembers] at hfound
    unfold progress
    exact .get_bind (.reading_bind hmark (.set_bind (.outside_bind (.reading_bind hfound (.outside_bind (.outside_bind
      (.pure ⟨hmembers, rfl⟩)))))))
  refine hends.mono fun p _ _ ⟨hmembers, htold⟩ => ?_
  rw [hmembers]
  obtain ⟨top, htop, hstands⟩ := (hmeasured s hs).oriented hα hopposite hprimary
  obtain ⟨hmem, hlives⟩ := mem_candidates.1 hs
  refine ⟨hextract, best, hbest, htold, by rw [hmarked]; exact hlives, ⟨s, hmem, hmarked⟩, top, s.standing c.primary,
    by rw [hmarked]; exact htop, hstands, fun t ht => ?_⟩
  obtain ⟨x, hx, hstands'⟩ := (hmeasured t ht).oriented hα hopposite hprimary
  have hle := hgreatest t ht
  rw [hmarked] at hle
  exact ⟨x, _, hx, hstands', hle⟩

/-! ## A tie in the first objective -/

local instance openPartsOfBest : ExactArithmetic := default

-- two of them have the least drawdown; the one that is ahead of the other otherwise is not the first of them, and
-- the failed one would be better than both
def tiedDrawdowns : Optimizer ℚ :=
  { idle with
    solutions := [weighed "deep" 5 3, weighed "flat" 1 1, weighed "steady" 2 1,
      { weighed "failed" 9 0 with error := some (.text "refused") }] }

/-- Of two solutions with the least drawdown the one is told that the other does not dominate. -/
theorem tiedDrawdowns_best :
    let c := { searchFor .genetic 5 with objectives := ["max_drawdown", "sharpe_ratio"] }
    (∀ s ∈ candidates tiedDrawdowns.solutions, s.Measured c.objectives) ∧
      Ensures (progress (firstFails fun _ => false).surroundings c) tiedDrawdowns (Log.start ()) fun p _ _ =>
        p.frontier.map (·.id) = ["deep", "steady"] ∧ p.best.map (·.id) = some "steady" ∧
          ∃ best ∈ p.frontier, p.best = some best ∧ best.isFailed = false := by
  intro c
  have hcandidates : candidates tiedDrawdowns.solutions =
    [weighed "deep" 5 3, weighed "flat" 1 1, weighed "steady" 2 1] := rfl
  have hmeasured : ∀ s ∈ candidates tiedDrawdowns.solutions, s.Measured c.objectives := by
    have hweighed : ∀ id sharpe drawdown, (weighed id sharpe drawdown).Measured ["max_drawdown", "sharpe_ratio"] := by
      intro id sharpe drawdown
      simp only [Measured, List.forall_mem_cons]
      exact ⟨⟨.real drawdown, drawdown, .inl rfl, rfl, rfl, nofun⟩, ⟨.real sharpe, sharpe, .inl rfl, rfl, rfl, nofun⟩, nofun⟩
    rw [hcandidates]
    simp only [List.forall_mem_cons]
    exact ⟨hweighed "deep" 5 3, hweighed "flat" 1 1, hweighed "steady" 2 1, nofun⟩
  refine ⟨hmeasured, ?_⟩
  obtain ⟨p, o', w', hrun, -, best, hmem, hbest, hlives, -⟩ :=
    progress_best Scalar.ordered_exact Scalar.symmetric_exact (firstFails fun _ => false).surroundings c
      (List.cons_ne_nil _ _) tiedDrawdowns (Log.start ()) hmeasured (by simp [hcandidates])
  have hends : (((progress (firstFails fun _ => false).surroundings c).run.run tiedDrawdowns).run (Log.start ())).1.1.toOption.map
      (fun p => (p.frontier.map (·.id), p.best.map (·.id))) = some (["deep", "steady"], some "steady") := by decide +kernel
  rw [hrun] at hends
  obtain ⟨hfrontier, hfound⟩ := Prod.mk.inj (Option.some.inj hends)
  exact ⟨p, o', w', hrun, hfrontier, hfound, best, hmem, hbest, hlives⟩

end Optimizer

end StrategyLab
