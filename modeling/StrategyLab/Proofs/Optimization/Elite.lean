/-
Runs by generations with deterministic evaluations. An evaluation is deterministic if the scores of an assignment do
not depend on when it is evaluated or under which name (`Surroundings.Rates`). Evaluating the members of a population
then rates each by the score of its own assignment (`evaluateMembers_leads`), so that what survives is rated as before.

Main statement: evolving keeps the fitter half and the best fitness, and from generation to generation the best fitness
does not decrease (`selection_elitist`).
-/
import StrategyLab.Proofs.Optimization.Loops
import StrategyLab.Proofs.Search.Selection

namespace StrategyLab

open Stage

variable {ω σ α : Type} [Scalar α]

/-! ## Deterministic evaluations -/

/-- The scores of an assignment are the same whenever it is evaluated; it has none if it fails on all windows. -/
def Surroundings.Rates (S : Surroundings (StateM ω) σ α) (e : Evaluation α) (scores : Assignment α → Object α) : Prop :=
  ∀ id a w, match ((S.evaluate e id a).run w).1 with
    | .ok s => s.scores = scores a
    | .error (.allWindowsFailed _ _) => scores a = []
    | .error _ => True

/-- An oriented score is defined. -/
theorem Objective.oriented_defined (hα : Scalar.Comparable α) {scores : Object α} {name : String} {x : α}
    (h : oriented scores name = .ok x) : Scalar.isUndefined x = false := by
  unfold oriented at h
  cases hread : number? (Value.ofOption (Object.get? scores name)) with
  | error cause =>
    rw [hread] at h
    cases h
  | ok found =>
    rw [hread] at h
    cases found with
    | none =>
      cases h
      exact hα.bottom_defined
    | some y =>
      obtain rfl : (if Scalar.isFinite y.value then orient name y.value else Scalar.negativeInfinity) = x :=
        Except.ok.inj h
      split
      · rename_i hfinite
        unfold orient
        split
        · exact (hα.finite_defined hfinite).1
        · exact (hα.finite_defined hfinite).2
      · exact hα.bottom_defined

namespace Optimizer

variable {S : Surroundings (StateM ω) σ α} {e : Evaluation α} {c : SearchConfig α} {scores : Assignment α → Object α}

theorem solve_scores (hrates : S.Rates e scores) (id : String) (a : Assignment α) (o : Optimizer α) (w : ω) :
    Leads (solve S e id a) o w (fun s _ _ => s.scores = scores a) fun _ _ _ => True := by
  have hverdict := hrates id a w
  unfold solve
  refine .outside_bind ?_
  cases hanswer : ((S.evaluate e id a).run w).1 with
  | ok s =>
    rw [hanswer] at hverdict
    exact .pure hverdict
  | error f =>
    rw [hanswer] at hverdict
    cases f with
    | allWindowsFailed candidate reason => exact Leads.pure hverdict.symm
    | _ => trivial

/-- The solution of an evaluation has the scores of the assignment, whatever is stored and told on the way. -/
theorem step_scores (hrates : S.Rates e scores) (a : Assignment α) (o : Optimizer α) (w : ω) :
    Leads (step S e c a) o w (fun s _ _ => s.scores = scores a) fun _ _ _ => True := by
  unfold step
  refine .get_bind ((solve_scores hrates _ a o w).bind fun s o' w' hs => .modify_bind ?_)
  refine .attempting_bind (fun _ _ _ => trivial) fun _ _ _ => ?_
  refine (Leads.any _ _ _).bind fun p o'' w'' _ => .outside_bind (.get_bind ?_)
  refine .attempting_bind (fun _ _ _ => trivial) fun _ _ _ => ?_
  exact (Leads.any _ _ _).bind fun _ _ _ _ => .pure hs

/-! ## Generations -/

section

variable {score : Assignment α → α} (hα : Scalar.Comparable α) (hrates : S.Rates e scores)

include hα hrates

/-- Evaluating the members of a population from a position on rates each of them. -/
theorem evaluateMembers_leads (position : Nat) (rest : List (Assignment α)) {search : GeneticSearch α}
    (hscore : ∀ a, Objective.oriented (scores a) search.objective = .ok (score a))
    (hsearch : search.Standing score) (hrest : search.assignments.drop position = rest) (o : Optimizer α) (w : ω) :
    Leads (evaluateMembers S e c position rest search) o w
      (fun r _ _ => ∀ evaluated, r = some evaluated →
        evaluated.Standing score ∧ evaluated.objective = search.objective ∧ ¬ evaluated.best < search.best)
      fun _ _ _ => True := by
  have hdefined : ∀ a, Scalar.isUndefined (score a) = false := fun a => Objective.oriented_defined hα (hscore a)
  induction rest generalizing position search o w with
  | nil =>
    refine .pure fun evaluated hevaluated => ?_
    cases hevaluated
    exact ⟨hsearch, rfl, fun hless => hα.asymm hless hless⟩
  | cons a rest ih =>
    unfold evaluateMembers
    refine .get_bind ?_
    split
    · refine .pure fun evaluated hevaluated => ?_
      cases hevaluated
    · refine (step_scores hrates a o w).bind fun s o' w' hs => ?_
      have hfitness : search.fitnessOf s.scores = .ok (score a) := by
        unfold GeneticSearch.fitnessOf
        rw [hs]
        exact hscore a
      refine .reading_bind (fun _ _ => trivial) fun fitness hread => ?_
      obtain rfl : score a = fitness := Except.ok.inj (hfitness.symm.trans hread)
      refine .reading_bind (fun _ _ => trivial) fun updated hupdated => ?_
      -- the assignment that was evaluated is that of the member at the position
      have hplace : search.assignments[position]? = some a := by
        rw [← List.head?_drop, hrest]
        rfl
      obtain ⟨m, hm, rfl⟩ := Option.map_eq_some_iff.1 ((List.getElem?_map ..).symm.trans hplace)
      have hrated : GeneticSearch.Rated score search updated := ⟨position, m, hm, hupdated⟩
      obtain ⟨hstanding, hobjective, hassignments⟩ := hrated.keeps hsearch
      have hbest := hrated.best_not_less hα hdefined hsearch
      have hrest' : updated.assignments.drop (position + 1) = rest := by
        rw [hassignments, ← List.tail_drop, hrest]
        rfl
      refine (ih (position + 1) (hobjective ▸ hscore) hstanding hrest' o' w').mono
        (fun r o'' w'' hr evaluated hevaluated => ?_) fun _ _ _ _ => trivial
      obtain ⟨hevaluated', hobjective', hbest'⟩ := hr evaluated hevaluated
      exact ⟨hevaluated', hobjective'.trans hobjective,
        hα.trans (hstanding.best_defined hα hdefined) hbest' hbest⟩

end

variable [RandomSource σ α]

/-- A round of a search by generations: the members are evaluated, in some state of the optimizer and of its
surroundings, and the search evolves with what is drawn from some source. -/
structure Round (S : Surroundings (StateM ω) σ α) (e : Evaluation α) (c : SearchConfig α)
    (search evaluated next : GeneticSearch α) : Prop where
  evaluates : ∃ o w o' w',
    execute (evaluateMembers S e c 0 search.assignments search) o w = ((.ok (some evaluated), o'), w')
  evolves : ∃ source last : σ, (evaluated.evolve : Draw σ α (GeneticSearch α)).run.run source = (.ok next, last)

/-- What a search becomes in some rounds, and the evaluated generations on the way. -/
inductive Evolution (S : Surroundings (StateM ω) σ α) (e : Evaluation α) (c : SearchConfig α)
    (start : GeneticSearch α) : List (GeneticSearch α) → GeneticSearch α → Prop
  | start : Evolution S e c start [] start
  | round {past : List (GeneticSearch α)} {search evaluated next : GeneticSearch α} :
    Evolution S e c start past search → Round S e c search evaluated next →
    Evolution S e c start (past ++ [evaluated]) next

section

variable {score : Assignment α → α} (hα : Scalar.Comparable α) (hrates : S.Rates e scores)

include hα hrates

/-- A round does not lower the best fitness, neither when members are evaluated nor when the search evolves. -/
theorem Round.standing {search evaluated next : GeneticSearch α}
    (hscore : ∀ a, Objective.oriented (scores a) search.objective = .ok (score a)) (hsearch : search.Standing score)
    (h : Round S e c search evaluated next) : next.Standing score ∧ next.objective = search.objective ∧
      ¬ evaluated.best < search.best ∧ next.best = evaluated.best := by
  have hdefined : ∀ a, Scalar.isUndefined (score a) = false := fun a => Objective.oriented_defined hα (hscore a)
  obtain ⟨o, w, o', w', hevaluates⟩ := h.evaluates
  obtain ⟨source, last, hevolves⟩ := h.evolves
  have hleads := evaluateMembers_leads (c := c) hα hrates 0 search.assignments hscore hsearch rfl o w
  unfold Leads at hleads
  rw [hevaluates] at hleads
  obtain ⟨hevaluated, hobjective, hbest⟩ := hleads evaluated rfl
  obtain ⟨hnext, hobjective', hbest'⟩ := hevaluated.evolve hα hdefined hevolves
  exact ⟨hnext, hobjective'.trans hobjective, hbest, hbest'⟩

/-- In any number of rounds the best fitness of the evaluated generations does not decrease. -/
theorem Evolution.rises {start search : GeneticSearch α} {past : List (GeneticSearch α)}
    (hscore : ∀ a, Objective.oriented (scores a) start.objective = .ok (score a)) (hstart : start.Standing score)
    (h : Evolution S e c start past search) : search.Standing score ∧ search.objective = start.objective ∧
      (∀ earlier ∈ past, Scalar.isUndefined earlier.best = false ∧ ¬ search.best < earlier.best) ∧
      past.Pairwise fun earlier later => ¬ later.best < earlier.best := by
  have hdefined : ∀ a, Scalar.isUndefined (score a) = false := fun a => Objective.oriented_defined hα (hscore a)
  induction h with
  | start => exact ⟨hstart, rfl, nofun, .nil⟩
  | @round past search evaluated next _ hround ih =>
    obtain ⟨hsearch, hobjective, hpast, hrises⟩ := ih
    obtain ⟨hnext, hobjective', hevaluated, hsame⟩ := hround.standing hα hrates (hobjective ▸ hscore) hsearch
    have hkept : ∀ earlier ∈ past, ¬ evaluated.best < earlier.best := fun earlier hearlier =>
      hα.trans (hsearch.best_defined hα hdefined) hevaluated (hpast earlier hearlier).2
    have hbest : Scalar.isUndefined evaluated.best = false := hsame ▸ hnext.best_defined hα hdefined
    refine ⟨hnext, hobjective'.trans hobjective, fun earlier hearlier => ?_, ?_⟩
    · rw [hsame]
      rcases List.mem_append.1 hearlier with hearlier | hearlier
      · exact ⟨(hpast earlier hearlier).1, hkept earlier hearlier⟩
      · rw [List.mem_singleton.1 hearlier]
        exact ⟨hbest, fun hless => hα.asymm hless hless⟩
    · refine List.pairwise_append.2 ⟨hrises, List.pairwise_singleton _ _, fun earlier hearlier later hlater => ?_⟩
      rw [List.mem_singleton.1 hlater]
      exact hkept earlier hearlier

end

end Optimizer

/-! ## Selection over generations -/

namespace GeneticSearch

variable [RandomSource σ α]

omit [Scalar α] [RandomSource σ α] in
theorem start_two {parameters : List (Parameter α)} {objectives : List String} {size : Int} {rate : α}
    {empty : GeneticSearch α} (h : start parameters objectives size rate = .ok empty) : 2 ≤ empty.size := by
  unfold start at h
  cases objectives with
  | nil => cases h
  | cons objective others =>
    dsimp only at h
    split at h
    · cases h
    · cases h
      dsimp only
      omega

/-- A search that is populated stands, whatever the scores are: no member is rated. -/
theorem populate_standing (score : Assignment α → α) {empty : GeneticSearch α} (htwo : 2 ≤ empty.size) (source : σ) :
    ((empty.populate : StateM σ (GeneticSearch α)).run source).1.Standing score := by
  obtain ⟨hcount, hfilled⟩ :=
    Sampling.samples_yields (Parameter.Domain.unconditional empty.parameters) empty.size source
  refine ⟨htwo, (List.length_map _).trans hcount, fun m hm => ?_, fun m hm => ?_⟩
  · obtain ⟨a, ha, rfl⟩ := List.mem_map.1 hm
    exact (hfilled a ha).legible
  · obtain ⟨a, -, rfl⟩ := List.mem_map.1 hm
    exact .inl rfl

end GeneticSearch

/-- Selection is elitist. Whatever the fitness of its members, as long as it is defined, and whatever is drawn, a search
evolves and keeps its fitter half and its best fitness; and if evaluations are deterministic, the best fitness of a
generation is never less than that of an earlier one. -/
theorem selection_elitist [RandomSource σ α] (hα : Scalar.Comparable α) :
    (∀ (s : GeneticSearch α) (source : σ), s.Ready → ∃ next last,
      (s.evolve : Draw σ α (GeneticSearch α)).run.run source = (.ok next, last) ∧ s.Elitist next) ∧
    ∀ (S : Surroundings (StateM ω) σ α) (e : Evaluation α) (c : SearchConfig α) (scores : Assignment α → Object α)
      (score : Assignment α → α) (empty : GeneticSearch α) (source : σ),
      S.Rates e scores → (∀ a, Objective.oriented (scores a) empty.objective = .ok (score a)) →
      GeneticSearch.start c.parameters c.objectives c.populationSize GeneticSearch.defaultRate = .ok empty →
      ∀ past search,
        Optimizer.Evolution S e c ((empty.populate : StateM σ (GeneticSearch α)).run source).1 past search →
        past.Pairwise fun earlier later => ¬ later.best < earlier.best := by
  refine ⟨fun s source hs => ?_, fun S e c scores score empty source hrates hscore hempty past search h => ?_⟩
  · obtain ⟨next, last, hrun, helitist, -⟩ := GeneticSearch.evolve_elitist hα hs source
    exact ⟨next, last, hrun, helitist⟩
  · have hstanding := GeneticSearch.populate_standing score (GeneticSearch.start_two hempty) source
    have hsame : ∀ a, Objective.oriented (scores a) ((empty.populate : StateM σ _).run source).1.objective =
        .ok (score a) := hscore
    exact (h.rises hα hrates hsame hstanding).2.2.2

/-! ### A population of three, and a search of one round -/

namespace EvenSearch

local instance openPartsOfElites : ExactArithmetic := Inhabited.default

/-- A source that always draws zero. -/
local instance zeroSourceOfElites : RandomSource Unit Extended := ⟨fun s => (.finite 0, s), fun _ s => (0, s)⟩

/-- Two equally fit members, and an unrated one between them. -/
def threeMembers : GeneticSearch Extended :=
  { parameters := [], objective := "sharpe_ratio", size := 3, mutationRate := .finite 0, generation := 4
    population := [⟨[(.text "first", .object [])], .finite 1⟩, GeneticSearch.newborn [],
      ⟨[(.text "last", .object [])], .finite 1⟩] }

theorem threeMembers_ready : threeMembers.Ready := by
  refine ⟨by decide, rfl, fun m _ => nofun, fun m hm => ?_⟩
  simp only [threeMembers, List.mem_cons, List.not_mem_nil, or_false] at hm
  rcases hm with rfl | rfl | rfl <;> rfl

/-- The scores of every assignment. -/
def scores : Object Extended := [(.text "sharpe_ratio", .real (.finite 1))]

/-- Surroundings in which every assignment has these scores. -/
def surroundings : Surroundings (StateM Unit) Unit Extended :=
  { source := fun _ => .ok (), plan := .default
    evaluate := fun _ id a => pure (.ok
      { id, assignment := a, inside := [], outside := scores, degradation := .finite 0, isOptimal := false
        error := none, windowsFailed := 0 })
    now := pure (.finite 0), hitRate := pure (.finite 0), active := pure 0, fetchReported := pure []
    storeConfig := fun _ => pure (.ok ()), storeSolution := fun _ => pure (.ok ())
    storeCheckpoint := fun _ => pure (.ok ()), storeResult := fun _ => pure (.ok ()), follow := fun _ => pure () }

/-- A search among two members, for four evaluations. -/
def config : SearchConfig Extended :=
  { parameters := [], objectives := ["sharpe_ratio"], algorithm := .genetic, maxIterations := 4, populationSize := 2
    seed := none
    run :=
      { start := .known 0, stop := .known 1000000, capital := .whole 1000, interval := .whole 1, baseCurrency := "USDC"
        holdings := [], granularity := .null } }

def evaluation : Evaluation Extended := ⟨[], config.run, []⟩

/-- The search before it is populated. -/
def empty : GeneticSearch Extended :=
  { parameters := [], objective := "sharpe_ratio", size := 2, mutationRate := GeneticSearch.defaultRate, generation := 0
    population := [] }

def populated : GeneticSearch Extended := ((empty.populate : StateM Unit (GeneticSearch Extended)).run ()).1

theorem populated_round : ∃ rated next, Optimizer.Round surroundings evaluation config populated rated next := by
  have hgoes : ((execute (Optimizer.evaluateMembers surroundings evaluation config 0 populated.assignments populated)
      Optimizer.idle ()).1.1.toOption.join.map fun rated =>
        ((rated.evolve : Draw Unit Extended _).run.run ()).1.toOption.isSome) = some true := by decide +kernel
  rcases hrun : execute (Optimizer.evaluateMembers surroundings evaluation config 0 populated.assignments populated)
    Optimizer.idle () with ⟨⟨answer, o'⟩, w'⟩
  rw [hrun] at hgoes
  match answer with
  | .ok (some rated) =>
    rcases hevolve : (rated.evolve : Draw Unit Extended _).run.run () with ⟨found, last⟩
    have hfound : ((rated.evolve : Draw Unit Extended _).run.run ()).1.toOption.isSome = true := Option.some.inj hgoes
    rw [hevolve] at hfound
    cases found with
    | ok next => exact ⟨rated, next, ⟨Optimizer.idle, (), o', w', hrun⟩, (), last, hevolve⟩
    | error f => cases hfound

/-- The three evolve, and the search of two goes through a round. -/
theorem threeMembers_elitist : Scalar.Comparable Extended ∧ threeMembers.Ready ∧
    (∃ next last,
      (threeMembers.evolve : Draw Unit Extended _).run.run () = (.ok next, last) ∧ threeMembers.Elitist next) ∧
    surroundings.Rates evaluation (fun _ => scores) ∧
    ∃ past search, past.length = 1 ∧ Optimizer.Evolution surroundings evaluation config populated past search ∧
      past.Pairwise fun earlier later => ¬ later.best < earlier.best := by
  have hα := Extended.comparable
  have hrates : surroundings.Rates evaluation fun _ => scores := fun _ _ _ => rfl
  obtain ⟨hevolves, hrises⟩ := selection_elitist (ω := Unit) (σ := Unit) hα
  obtain ⟨rated, next, hround⟩ := populated_round
  have hevolution : Optimizer.Evolution surroundings evaluation config populated [rated] next := .round .start hround
  have hrise := hrises surroundings evaluation config _ (fun _ => .finite 1) empty () hrates (fun _ => rfl) rfl _ _
    hevolution
  exact ⟨hα, threeMembers_ready, hevolves threeMembers () threeMembers_ready, hrates, [rated], next, rfl, hevolution,
    hrise⟩

end EvenSearch

end StrategyLab
