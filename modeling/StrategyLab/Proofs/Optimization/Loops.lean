/-
The two searches of a run. Both evaluate as long as there is budget left and no stop was asked for,
and end with the budget spent or the run stopped (`Ended`): a suggestion and a next generation always
come about, and every generation has members to evaluate, so that the budget bounds the loops.
-/
import StrategyLab.Proofs.Optimization.Course

namespace StrategyLab

open Stage

variable {τ σ α : Type} [Scalar α]

/-- A search respects the condition that says nothing. -/
theorem Parameter.Domain.unconditional [RandomSource σ α] (ps : List (Parameter α)) :
    Parameter.Domain σ (fun _ _ => True) ps where
  agrees _ _ _ _ _ _ _ := trivial
  drawn _ _ _ _ _ := trivial
  fixed _ _ _ := trivial
  blended _ _ _ _ _ _ _ := trivial
  moved _ _ _ _ _ _ := trivial
  chosen _ _ _ _ := trivial

/-- A search that can make its next suggestion. -/
structure BayesianSearch.Ready (c : SearchConfig α) (s : BayesianSearch α) : Prop where
  parameters : s.parameters = c.parameters
  candidates : 0 < s.candidates
  legible : ∀ o ∈ s.observations, s.Legible o

theorem BayesianSearch.Ready.observe {c : SearchConfig α} {s : BayesianSearch α} (h : s.Ready c) {a : Assignment α}
    {scores : Object α} (ha : a.Legible c.parameters) (hscores : scores.Numeric) :
    (s.observe ⟨a, scores⟩).Ready c := by
  refine ⟨h.parameters, h.candidates, fun o ho => ?_⟩
  rcases List.mem_append.1 ho with ho | ho
  · exact ⟨(h.legible o ho).assignment, (h.legible o ho).scores⟩
  · rw [List.mem_singleton.1 ho]
    exact ⟨h.parameters ▸ ha, hscores.oriented _⟩

theorem BayesianSearch.start_ready {c : SearchConfig α} (hobjectives : c.objectives ≠ []) (candidates : Int)
    (target : α) : ∃ s, BayesianSearch.start c.parameters c.objectives candidates target = .ok s ∧ s.Ready c := by
  unfold BayesianSearch.start BayesianSearch.primary
  cases hc : c.objectives with
  | nil => exact absurd hc hobjectives
  | cons name rest => exact ⟨_, rfl, rfl, Nat.lt_of_lt_of_le Nat.zero_lt_one (Nat.le_max_left _ _), nofun⟩

omit [Scalar α] in
theorem GeneticSearch.start_exists {c : SearchConfig α} (hobjectives : c.objectives ≠ []) (hsize : 2 ≤ c.populationSize)
    (rate : α) : ∃ s, GeneticSearch.start c.parameters c.objectives c.populationSize rate = .ok s ∧ 2 ≤ s.size := by
  unfold GeneticSearch.start
  cases hc : c.objectives with
  | nil => exact absurd hc hobjectives
  | cons name rest =>
    dsimp only
    rw [if_neg (by omega)]
    refine ⟨_, rfl, ?_⟩
    show 2 ≤ c.populationSize.toNat
    omega

omit [Scalar α] in
theorem GeneticSearch.setFitness_ok {s : GeneticSearch α} {k : Nat} (hk : k < s.population.length) (x : α) :
    ∃ next, s.setFitness k x = .ok next := ⟨_, setFitness_eq hk x⟩

namespace Optimizer

variable {script : Script τ σ α} {e : Evaluation α} {c : SearchConfig α} {o : Optimizer α} {w : Log τ α}

/-- The run has spent its budget, or was stopped. -/
structure Ended (c : SearchConfig α) (windows : Nat) (o : Optimizer α) (w : Log τ α) : Prop where
  course : Course c.objectives windows o w
  within : o.iteration ≤ c.maxIterations
  ending : o.iteration = c.maxIterations ∨ o.stopRequested = true

/-! ## Search around the best observation -/

theorem evaluateSamples_ensures (rest : List (Assignment α)) {search : BayesianSearch α}
    (hc : Course c.objectives e.windows.length o w) (hbudget : o.iteration + rest.length ≤ c.maxIterations)
    (hready : search.Ready c) (hrest : ∀ a ∈ rest, a.Legible c.parameters) :
    Ensures (evaluateSamples script.surroundings e c rest search) o w fun r o' w' =>
      Course c.objectives e.windows.length o' w' ∧ o'.iteration ≤ c.maxIterations ∧
        (r = none ∧ o'.stopRequested = true ∨ ∃ s, r = some s ∧ s.Ready c) := by
  induction rest generalizing search o w with
  | nil => exact .pure ⟨hc, hbudget, .inr ⟨search, rfl, hready⟩⟩
  | cons a rest ih =>
    rw [List.length_cons] at hbudget
    unfold evaluateSamples
    refine .get_bind ?_
    cases hstop : o.stopRequested with
    | true => exact .pure ⟨hc, by omega, .inl ⟨rfl, hstop⟩⟩
    | false =>
      refine (step_ensures hc hstop a).bind fun s o' w' hstep => ?_
      obtain ⟨hc', hiteration, hscores⟩ := hstep
      exact ih hc' (by omega) (hready.observe (hrest a List.mem_cons_self) hscores)
        fun b hb => hrest b (List.mem_cons_of_mem _ hb)

variable [RandomSource σ α]

theorem evaluateSuggestions_ensures (left : Nat) {search : BayesianSearch α} {source : σ}
    (hc : Course c.objectives e.windows.length o w) (hbudget : o.iteration ≤ c.maxIterations)
    (hleft : c.maxIterations ≤ o.iteration + left) (hready : search.Ready c) :
    Ensures (evaluateSuggestions script.surroundings e c left search source) o w fun _ o' w' =>
      Ended c e.windows.length o' w' := by
  induction left generalizing search source o w with
  | zero => exact .pure ⟨hc, hbudget, .inl (by omega)⟩
  | succ left ih =>
    unfold evaluateSuggestions
    refine .get_bind ?_
    by_cases hgoes : o.iteration < c.maxIterations ∧ ¬ o.stopRequested = true
    · rw [if_pos hgoes]
      obtain ⟨a, next, hrun, ha⟩ := BayesianSearch.suggest_ensures (Parameter.Domain.unconditional _) hready.candidates
        hready.legible source
      change search.suggest.run source = _ at hrun
      rw [hrun]
      refine .given_bind rfl ?_
      refine (step_ensures hc (Bool.not_eq_true _ ▸ hgoes.2) a).bind fun s o' w' hstep => ?_
      obtain ⟨hc', hiteration, hscores⟩ := hstep
      rw [hready.parameters] at ha
      exact ih hc' (by omega) (by omega) (hready.observe ha.legible hscores)
    · rw [if_neg hgoes]
      refine .pure ⟨hc, hbudget, ?_⟩
      rcases not_and_or.1 hgoes with hspent | hstop
      · exact .inl (by omega)
      · exact .inr (not_not.1 hstop)

theorem searchAround_ensures (hc : Course c.objectives e.windows.length o w) (hstart : o.iteration = 0)
    (hobjectives : c.objectives ≠ []) {source : σ} (hsource : script.source c.seed = .ok source) :
    Ensures (searchAround script.surroundings e c) o w fun _ o' w' => Ended c e.windows.length o' w' := by
  obtain ⟨search, hsearch, hready⟩ := BayesianSearch.start_ready hobjectives BayesianSearch.defaultCandidates
    BayesianSearch.defaultTarget
  unfold searchAround
  refine .given_bind hsearch (.given_bind hsource ?_)
  have hdomain : Parameter.Domain σ (fun _ _ => True) search.parameters := .unconditional _
  have hdrawn := Sampling.samples_yields hdomain (min initialSamples c.maxIterations) source
  change Ensures (evaluateSamples script.surroundings e c
    ((Sampling.samples search.parameters (min initialSamples c.maxIterations) : StateM σ _).run source).1 search >>=
      fun r => _) o w _
  refine (evaluateSamples_ensures _ hc ?_ hready ?_).bind fun r o' w' hsamples => ?_
  · rw [hdrawn.1, hstart]
    omega
  · intro a ha
    rw [← hready.parameters]
    exact (hdrawn.2 a ha).legible
  · obtain ⟨hc', hbudget, ⟨rfl, hstop⟩ | ⟨s, rfl, hready'⟩⟩ := hsamples
    · exact .pure ⟨hc', hbudget, .inr hstop⟩
    · exact evaluateSuggestions_ensures _ hc' hbudget (by omega) hready'

/-! ## Search by generations -/

omit [RandomSource σ α] in
theorem evaluateMembers_ensures {start : GeneticSearch α} (position : Nat) (rest : List (Assignment α))
    {search : GeneticSearch α} (hc : Course c.objectives e.windows.length o w) (hbudget : o.iteration ≤ c.maxIterations)
    (hsound : search.Sound (fun _ _ => True) start) (hplace : position + rest.length = start.size) :
    Ensures (evaluateMembers script.surroundings e c position rest search) o w fun r o' w' =>
      r = none ∧ Ended c e.windows.length o' w' ∨
        ∃ s, r = some s ∧ s.Sound (fun _ _ => True) start ∧ Course c.objectives e.windows.length o' w' ∧
          o'.iteration ≤ c.maxIterations ∧ o'.iteration = o.iteration + rest.length := by
  induction rest generalizing position search o w with
  | nil => exact .pure (.inr ⟨search, rfl, hsound, hc, hbudget, rfl⟩)
  | cons a rest ih =>
    rw [List.length_cons] at hplace
    unfold evaluateMembers
    refine .get_bind ?_
    by_cases hends : c.maxIterations ≤ o.iteration ∨ o.stopRequested = true
    · rw [if_pos hends]
      refine .pure (.inl ⟨rfl, hc, hbudget, ?_⟩)
      exact hends.imp (fun h => by omega) id
    · rw [if_neg hends]
      obtain ⟨hleft, hgoes⟩ := not_or.1 hends
      refine (step_ensures hc (Bool.not_eq_true _ ▸ hgoes) a).bind fun s o' w' hstep => ?_
      obtain ⟨hc', hiteration, hscores⟩ := hstep
      obtain ⟨fitness, hfitness⟩ := hscores.oriented search.objective
      have hposition : position < search.population.length := by
        rw [hsound.members]
        omega
      obtain ⟨updated, hupdated⟩ := GeneticSearch.setFitness_ok hposition fitness
      refine .reading_bind hfitness (.reading_bind hupdated ?_)
      refine (ih (position + 1) hc' (by omega) (GeneticSearch.setFitness_sound hsound hupdated) (by omega)).mono
        fun r o'' w'' hrest => hrest.imp_right ?_
      rintro ⟨s', hr, hs', hc'', hbudget', hcount⟩
      refine ⟨s', hr, hs', hc'', hbudget', ?_⟩
      rw [hcount, hiteration, List.length_cons]
      omega

theorem evaluateGenerations_ensures (hsource : RandomSource.Bounded σ α) {start : GeneticSearch α}
    (hsize : 2 ≤ start.size) (left : Nat) {search : GeneticSearch α} {source : σ}
    (hc : Course c.objectives e.windows.length o w) (hbudget : o.iteration ≤ c.maxIterations)
    (hleft : c.maxIterations ≤ o.iteration + left) (hsound : search.Sound (fun _ _ => True) start) :
    Ensures (evaluateGenerations script.surroundings e c left search source) o w fun _ o' w' =>
      Ended c e.windows.length o' w' := by
  induction left generalizing search source o w with
  | zero => exact .pure ⟨hc, hbudget, .inl (by omega)⟩
  | succ left ih =>
    unfold evaluateGenerations
    refine .get_bind ?_
    by_cases hgoes : o.iteration < c.maxIterations ∧ ¬ o.stopRequested = true
    · rw [if_pos hgoes]
      have hmembers : 0 + search.assignments.length = start.size := by
        rw [Nat.zero_add, GeneticSearch.assignments, List.length_map, hsound.members]
      refine (evaluateMembers_ensures 0 search.assignments hc hbudget hsound hmembers).bind fun r o' w' hr => ?_
      obtain ⟨rfl, hended⟩ | ⟨evaluated, rfl, hevaluated, hc', hbudget', hcount⟩ := hr
      · exact .pure hended
      · obtain ⟨evolved, next, hrun, hevolved⟩ :=
          GeneticSearch.evolve_ensures hsource (Parameter.Domain.unconditional _) hsize hevaluated source
        change evaluated.evolve.run source = _ at hrun
        dsimp only
        rw [hrun]
        refine .given_bind rfl (ih hc' hbudget' ?_ hevolved)
        -- the generation had members, so that less budget is left
        omega
    · rw [if_neg hgoes]
      refine .pure ⟨hc, hbudget, ?_⟩
      rcases not_and_or.1 hgoes with hspent | hstop
      · exact .inl (by omega)
      · exact .inr (not_not.1 hstop)

theorem searchByGenerations_ensures (hbounded : RandomSource.Bounded σ α)
    (hc : Course c.objectives e.windows.length o w) (hstart : o.iteration = 0) (hobjectives : c.objectives ≠ [])
    (hsize : 2 ≤ c.populationSize) {source : σ} (hsource : script.source c.seed = .ok source) :
    Ensures (searchByGenerations script.surroundings e c) o w fun _ o' w' => Ended c e.windows.length o' w' := by
  obtain ⟨empty, hempty, htwo⟩ := GeneticSearch.start_exists hobjectives hsize GeneticSearch.defaultRate
  unfold searchByGenerations
  refine .given_bind hempty (.given_bind hsource ?_)
  have hsound := GeneticSearch.populate_yields (Parameter.Domain.unconditional empty.parameters) source
  exact evaluateGenerations_ensures hbounded htwo _ hc (by omega) (by omega) hsound

theorem search_ensures (hbounded : RandomSource.Bounded σ α) (hc : Course c.objectives e.windows.length o w)
    (hstart : o.iteration = 0) (hobjectives : c.objectives ≠ []) (hsize : 2 ≤ c.populationSize) {source : σ}
    (hsource : script.source c.seed = .ok source) :
    Ensures (search script.surroundings e c) o w fun _ o' w' => Ended c e.windows.length o' w' := by
  unfold search
  cases c.algorithm with
  | bayesian => exact searchAround_ensures hc hstart hobjectives hsource
  | genetic => exact searchByGenerations_ensures hbounded hc hstart hobjectives hsize hsource

end Optimizer

end StrategyLab
