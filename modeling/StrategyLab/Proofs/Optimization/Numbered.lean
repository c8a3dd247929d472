/-
Numbered solutions. A run names its solutions after their places (`step_numbered`), so that names begin anew with
every run, and a run that has a budget and comes to an end has at least one solution: both searches evaluate
something before they look at the budget a second time (`search_reaches`).
-/
import StrategyLab.Optimization.Session
import StrategyLab.Proofs.Ledger.Operation
import StrategyLab.Proofs.Optimization.Invariant
import StrategyLab.Proofs.Optimization.Loops

namespace StrategyLab

open Stage

variable {ω σ α : Type}

/-! ## Names -/

/-- The name of the solution in a place. -/
def solutionName (i : Nat) : String := s!"solution-{i}"

theorem solutionName_injective : Function.Injective solutionName := fun _ _ h =>
  Decimal.natText_injective ((String.append_right_inj _).1 h)

/-- The solutions of an optimizer are named after their places. -/
def Numbered (o : Optimizer α) : Prop := o.solutions.map (·.id) = (List.range o.iteration).map solutionName

theorem Numbered.length {o : Optimizer α} (h : Numbered o) : o.solutions.length = o.iteration := by
  have hlength := congrArg List.length h
  rwa [List.length_map, List.length_map, List.length_range] at hlength

variable [Scalar α]

/-- Surroundings that give a solution the name it is evaluated under. -/
def Surroundings.Names (S : Surroundings (StateM ω) σ α) : Prop :=
  ∀ e id a w s, ((S.evaluate e id a).run w).1 = .ok s → s.id = id

theorem Evaluation.solution_named {id : String} {a : Assignment α} {outcomes : List (JobOutcome α)} {s : Solution α}
    (h : solution id a outcomes = .ok s) : s.id = id := by
  unfold solution at h
  dsimp only at h
  split at h
  · cases h
  · obtain ⟨rows, -, h⟩ := bind_ok h
    obtain ⟨scores, -, h⟩ := bind_ok h
    obtain ⟨degradation, -, h⟩ := bind_ok h
    cases h
    rfl

/-- Those of a session do. -/
theorem Session.surroundings_names {π : Type} (now : Id α) (windows : WindowPlan α) (plan : SchedulerPlan α) (pool : Pool π α)
    (follow : Progress α → Stage (StateM (Session π α)) α Unit) :
    (Session.surroundings (μ := Id) now windows plan pool follow).Names := by
  intro e id a w s h
  change ((e.run plan pool id a).run (w.scheduler, w.pool)).1 = .ok s at h
  unfold Evaluation.run at h
  cases hjobs : e.jobs a with
  | error f =>
    rw [hjobs] at h
    cases h
  | ok jobs =>
    rw [hjobs] at h
    exact Evaluation.solution_named h

omit [Scalar α] in
theorem GeneticSearch.start_size {parameters : List (Parameter α)} {objectives : List String} {size : Int} {rate : α}
    {s : GeneticSearch α} (h : GeneticSearch.start parameters objectives size rate = .ok s) : 2 ≤ s.size := by
  unfold GeneticSearch.start at h
  split at h
  · cases h
  · split at h
    · cases h
    · cases h
      show 2 ≤ size.toNat
      omega

namespace Optimizer

variable {S : Surroundings (StateM ω) σ α} {e : Evaluation α} {c : SearchConfig α}

theorem solve_named (hS : S.Names) (e : Evaluation α) (id : String) (a : Assignment α) (o : Optimizer α) (w : ω) :
    Leads (solve S e id a) o w (fun s o' _ => o' = o ∧ s.id = id) fun _ _ _ => True := by
  unfold solve
  refine .outside_bind ?_
  cases hrun : ((S.evaluate e id a).run w).1 with
  | ok s => exact ⟨rfl, hS _ _ _ _ _ hrun⟩
  | error f => cases f <;> first | exact ⟨rfl, rfl⟩ | trivial

/-- One more solution, named after its place, if whoever follows the run leaves the solutions alone. -/
theorem step_numbered (hS : S.Names) (hfollow : ∀ p o w, Leads (S.follow p) o w
    (fun _ o' _ => o'.solutions = o.solutions ∧ o'.iteration = o.iteration) fun _ _ _ => True) (e : Evaluation α) (c : SearchConfig α) (a : Assignment α) {o : Optimizer α}
    (h : Numbered o) (w : ω) :
    Leads (step S e c a) o w (fun _ o' _ => Numbered o' ∧ 0 < o'.iteration) fun _ _ _ => True := by
  have hanywhere : ∀ (_ : ω), True → True := fun _ _ => trivial
  unfold step
  refine .get_bind ((solve_named hS e _ a o w).bind ?_)
  rintro s o₁ w₁ ⟨rfl, hs⟩
  refine .modify_bind (.attempting_bind (fun _ _ _ => trivial) fun _ w₂ _ => ?_)
  refine ((progress_leads S c hanywhere hanywhere hanywhere _ (w := w₂) trivial).mono (fun _ _ _ h => h)
    fun _ _ _ _ => trivial).bind ?_
  rintro p _ w₃ ⟨⟨found, hp, rfl⟩, -⟩
  refine .outside_bind (.get_bind (.attempting_bind (fun _ _ _ => trivial) fun _ w₄ _ => ?_))
  refine (hfollow p _ w₄).bind ?_
  rintro - o₅ - ⟨hsolutions, hiteration⟩
  refine .pure ⟨?_, by rw [hiteration]; exact Nat.succ_pos _⟩
  show o₅.solutions.map (·.id) = (List.range o₅.iteration).map solutionName
  rw [hsolutions, hiteration, Frontier.mark_names hp.marked, List.map_append, List.range_succ, List.map_append, h, List.map_singleton, hs,
    h.length]
  rfl

theorem begin_fresh (S : Surroundings (StateM ω) σ α) (blocks : List (Block α)) (c : SearchConfig α) (o : Optimizer α) (w : ω) :
    Leads (begin S blocks c) o w (fun _ o' _ => ∃ time, o' = started time) fun _ _ _ => True := by
  unfold begin
  refine .get_bind ?_
  split
  · trivial
  · refine .given_bind (fun _ _ => trivial) fun _ _ => .given_bind (fun _ _ => trivial) fun _ _ => .outside_bind (.set_bind ?_)
    exact .attempting_bind (fun _ _ _ => trivial) fun _ _ _ => .pure ⟨_, rfl⟩

/-! ## At least one evaluation -/

section

variable {I J : Optimizer α → ω → Prop} {E : ω → Prop} (hI : ∀ o w, I o w → E w) (hJ : ∀ o w, J o w → E w)
  (hfirst : ∀ a o w, I o w → Leads (step S e c a) o w (fun _ o' w' => J o' w') fun _ _ w' => E w')
  (hnext : ∀ a, Keeps J E (step S e c a)) {o : Optimizer α} {w : ω} (h : I o w) (hgoes : o.stopRequested = false)

include hfirst hnext h hgoes

theorem evaluateSamples_reaches {samples : List (Assignment α)} (hsome : samples ≠ []) (search : BayesianSearch α) :
    Leads (evaluateSamples S e c samples search) o w (fun _ o' w' => J o' w') fun _ _ w' => E w' := by
  obtain ⟨a, rest, rfl⟩ := List.exists_cons_of_ne_nil hsome
  unfold evaluateSamples
  refine .get_bind ?_
  rw [hgoes, if_neg (by decide)]
  exact (hfirst a o w h).bind fun s o' w' => evaluateSamples_keeps hnext rest _ o' w'

include hJ

theorem evaluateMembers_reaches (hfresh : o.iteration < c.maxIterations) (position : Nat) {members : List (Assignment α)}
    (hsome : members ≠ []) (search : GeneticSearch α) :
    Leads (evaluateMembers S e c position members search) o w (fun _ o' w' => J o' w') fun _ _ w' => E w' := by
  obtain ⟨a, rest, rfl⟩ := List.exists_cons_of_ne_nil hsome
  have hgoing : ¬ (c.maxIterations ≤ o.iteration ∨ o.stopRequested = true) :=
    not_or.2 ⟨Nat.not_le.2 hfresh, by rw [hgoes]; decide⟩
  unfold evaluateMembers
  refine .get_bind ?_
  rw [if_neg hgoing]
  refine (hfirst a o w h).bind fun s o' w' h' => .reading_bind (fun _ _ => hJ o' w' h') fun fitness _ =>
    .reading_bind (fun _ _ => hJ o' w' h') fun updated _ => ?_
  exact evaluateMembers_keeps hJ hnext (position + 1) rest updated o' w' h'

variable [RandomSource σ α]

theorem evaluateGenerations_reaches (hfresh : o.iteration < c.maxIterations) {left : Nat} (hleft : 0 < left)
    {search : GeneticSearch α} (hsome : search.assignments ≠ []) (source : σ) :
    Leads (evaluateGenerations S e c left search source) o w (fun _ o' w' => J o' w') fun _ _ w' => E w' := by
  obtain ⟨left, rfl⟩ := Nat.exists_eq_succ_of_ne_zero (Nat.ne_of_gt hleft)
  have hgoing : o.iteration < c.maxIterations ∧ ¬ o.stopRequested = true := ⟨hfresh, by rw [hgoes]; decide⟩
  unfold evaluateGenerations
  refine .get_bind ?_
  rw [if_pos hgoing]
  refine (evaluateMembers_reaches hJ hfirst hnext h hgoes hfresh 0 hsome search).bind fun r o' w' h' => ?_
  cases r with
  | none => exact .pure h'
  | some evaluated =>
    exact .given_bind (fun _ _ => hJ o' w' h') fun evolved _ => evaluateGenerations_keeps hJ hnext left _ _ o' w' h'

include hI

theorem searchAround_reaches (hbudget : 0 < c.maxIterations) :
    Leads (searchAround S e c) o w (fun _ o' w' => J o' w') fun _ _ w' => E w' := by
  unfold searchAround
  refine .given_bind (fun _ _ => hI o w h) fun search _ => .given_bind (fun _ _ => hI o w h) fun source _ => ?_
  have hdrawn := Sampling.samples_yields (σ := σ) (.unconditional search.parameters) (min initialSamples c.maxIterations) source
  change Leads (evaluateSamples S e c
    ((Sampling.samples search.parameters (min initialSamples c.maxIterations) : StateM σ _).run source).1 search >>=
      fun r => _) o w _ _
  have hsome : ((Sampling.samples search.parameters (min initialSamples c.maxIterations) : StateM σ _).run source).1 ≠ [] := by
    refine List.ne_nil_of_length_pos ?_
    rw [hdrawn.1]
    exact Nat.lt_min.2 ⟨by decide, hbudget⟩
  refine (evaluateSamples_reaches hfirst hnext h hgoes hsome search).bind fun r o' w' h' => ?_
  cases r with
  | none => exact .pure h'
  | some search => exact evaluateSuggestions_keeps hJ hnext _ search _ o' w' h'

theorem searchByGenerations_reaches (hfresh : o.iteration < c.maxIterations) :
    Leads (searchByGenerations S e c) o w (fun _ o' w' => J o' w') fun _ _ w' => E w' := by
  unfold searchByGenerations
  refine .given_bind (fun _ _ => hI o w h) fun empty hempty => .given_bind (fun _ _ => hI o w h) fun source _ => ?_
  have hmembers := (GeneticSearch.populate_yields (σ := σ) (.unconditional empty.parameters) source).members
  have hsome : ((empty.populate : StateM σ _).run source).1.assignments ≠ [] := by
    refine List.ne_nil_of_length_pos ?_
    rw [GeneticSearch.assignments, List.length_map, hmembers]
    exact Nat.lt_of_lt_of_le Nat.zero_lt_two (GeneticSearch.start_size hempty)
  exact evaluateGenerations_reaches hJ hfirst hnext h hgoes hfresh (by omega) hsome _

/-- What the first evaluation brings about and the others keep holds after a search that has a budget. -/
theorem search_reaches (hfresh : o.iteration < c.maxIterations) :
    Leads (search S e c) o w (fun _ o' w' => J o' w') fun _ _ w' => E w' := by
  unfold search
  cases c.algorithm with
  | bayesian => exact searchAround_reaches hI hJ hfirst hnext h hgoes (by omega)
  | genetic => exact searchByGenerations_reaches hI hJ hfirst hnext h hgoes hfresh

end

end Optimizer

end StrategyLab
