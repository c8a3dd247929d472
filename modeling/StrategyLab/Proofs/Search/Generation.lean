/-
Generations of a search: whatever fitness its members are given, a population keeps its size, every
member gives every parameter a permitted scalar, and the next generation comes about without a fault.
A child has what both parents have, so it is complete because they are; what is moved or newly chosen
afterwards is permitted by the condition itself.
-/
import StrategyLab.Proofs.Search.Proposal

namespace StrategyLab

open Draw

namespace GeneticSearch

variable {σ α : Type} [Scalar α] [RandomSource σ α] {P : Parameter α → α → Prop} {ps : List (Parameter α)}

/-! ## Children -/

/-- Where both parents have all values, a child gets the values of the remaining parameters. -/
theorem crossoverFrom_ensures (hP : Parameter.Domain σ P ps) {a b : Assignment α} (ha : a.Filled P ps)
    (hb : b.Filled P ps) (rest done : List (Parameter α)) (hrest : ∀ q ∈ rest, q ∈ ps) (hdone : ∀ q ∈ done, q ∈ ps)
    {grown : Assignment α} (hgrown : grown.Filled P done) :
    Ensures (crossoverFrom a b rest grown : Draw σ α (Assignment α)) (Assignment.Filled P (rest.reverse ++ done)) := by
  induction rest generalizing done grown with
  | nil => exact .pure hgrown
  | cons p rest ih =>
    have hp : p ∈ ps := hrest p List.mem_cons_self
    obtain ⟨x, hx, hPx⟩ := ha.get hp
    obtain ⟨y, hy, hPy⟩ := hb.get hp
    refine .ofValue_bind hx (.ofValue_bind hy ?_)
    refine (hP.blended p hp x y hPx hPy).lift.bind fun z hz => ?_
    refine .ofValue_bind (hgrown.within.set p z) ?_
    rw [List.reverse_cons, List.append_assoc]
    exact ih (p :: done) (fun q hq => hrest q (List.mem_cons_of_mem _ hq)) (List.forall_mem_cons.2 ⟨hp, hdone⟩)
      (hgrown.put hP.agrees hdone hp hz)

theorem crossover_ensures {s : GeneticSearch α} (hP : Parameter.Domain σ P s.parameters) {a b : Assignment α}
    (ha : a.Filled P s.parameters) (hb : b.Filled P s.parameters) :
    Ensures (s.crossover a b : Draw σ α (Assignment α)) (Assignment.Filled P s.parameters) := by
  refine (crossoverFrom_ensures hP ha hb _ [] (fun q hq => hq) nofun (Assignment.filled_nil P)).mono
    fun child hchild => hchild.congr fun q => ?_
  rw [List.append_nil, List.mem_reverse]

theorem mutateAt_ensures (hP : Parameter.Domain σ P ps) {p : Parameter α} (hp : p ∈ ps) {a : Assignment α}
    (ha : a.Filled P ps) : Ensures (mutateAt p a : Draw σ α (Assignment α)) (Assignment.Filled P ps) := by
  unfold mutateAt
  cases hdiscrete : p.isDiscrete with
  | true =>
    refine (hP.chosen p hp hdiscrete).lift.bind fun k hk => ?_
    exact .ofValue (ha.within.set p _) (ha.replace hP.agrees hp hk)
  | false =>
    obtain ⟨x, hx, hPx⟩ := ha.get hp
    refine .ofValue_bind hx ?_
    refine (hP.moved p hp hdiscrete x hPx).lift.bind fun share hshare => ?_
    exact .ofValue (ha.within.set p _) (ha.replace hP.agrees hp hshare)

theorem mutateFrom_ensures (hP : Parameter.Domain σ P ps) (rate : α) (rest : List (Parameter α))
    (hrest : ∀ q ∈ rest, q ∈ ps) {a : Assignment α} (ha : a.Filled P ps) :
    Ensures (mutateFrom rate rest a : Draw σ α (Assignment α)) (Assignment.Filled P ps) := by
  induction rest generalizing a with
  | nil => exact .pure ha
  | cons p rest ih =>
    have hnext : ∀ {b : Assignment α}, b.Filled P ps →
        Ensures (mutateFrom rate rest b : Draw σ α (Assignment α)) (Assignment.Filled P ps) :=
      fun hb => ih (fun q hq => hrest q (List.mem_cons_of_mem _ hq)) hb
    have hdraw : Yields (Draw.unit : StateM σ α) fun _ => True := fun _ => trivial
    refine hdraw.lift.bind fun u _ => ?_
    dsimp only
    split
    · exact (Ensures.pure ha).bind fun b hb => hnext hb
    · exact (mutateAt_ensures hP (hrest p List.mem_cons_self) ha).bind fun b hb => hnext hb

theorem child_ensures {s : GeneticSearch α} (hsource : RandomSource.Bounded σ α)
    (hP : Parameter.Domain σ P s.parameters) {parents : List (Assignment α)} (hsome : 0 < parents.length)
    (hparents : ∀ a ∈ parents, a.Filled P s.parameters) :
    Ensures (s.child parents : Draw σ α (Individual α)) fun m => m.assignment.Filled P s.parameters := by
  have hdraw : Yields (Draw.below α parents.length : StateM σ Nat) (· < parents.length) :=
    fun source => hsource _ source hsome
  have hpick : ∀ {k : Nat}, k < parents.length → (parents.getD k []).Filled P s.parameters := by
    intro k hk
    rw [List.getD_eq_getElem _ _ hk]
    exact hparents _ (List.getElem_mem hk)
  refine hdraw.lift.bind fun i hi => hdraw.lift.bind fun j hj => ?_
  refine (crossover_ensures hP (hpick hi) (hpick hj)).bind fun mixed hmixed => ?_
  exact (mutateFrom_ensures hP _ _ (fun q hq => hq) hmixed).bind fun changed hchanged => .pure hchanged

theorem children_ensures {s : GeneticSearch α} (hsource : RandomSource.Bounded σ α)
    (hP : Parameter.Domain σ P s.parameters) {parents : List (Assignment α)} (hsome : 0 < parents.length)
    (hparents : ∀ a ∈ parents, a.Filled P s.parameters) (n : Nat) :
    Ensures (s.children parents n : Draw σ α (List (Individual α))) fun ms =>
      ms.length = n ∧ ∀ m ∈ ms, m.assignment.Filled P s.parameters := by
  induction n with
  | zero => exact .pure ⟨rfl, nofun⟩
  | succ n ih =>
    refine (child_ensures hsource hP hsome hparents).bind fun first hfirst => ih.bind fun rest hrest => .pure ⟨?_, ?_⟩
    · rw [List.length_cons, hrest.1]
    · exact List.forall_mem_cons.2 ⟨hfirst, hrest.2⟩

/-! ## Generations -/

/-- A search that goes on as it was started, with its full number of members, all of them filled. -/
structure Sound (P : Parameter α → α → Prop) (s start : GeneticSearch α) : Prop where
  parameters : s.parameters = start.parameters
  objective : s.objective = start.objective
  size : s.size = start.size
  members : s.population.length = start.size
  filled : ∀ m ∈ s.population, m.assignment.Filled P start.parameters

theorem populate_yields {start : GeneticSearch α} (hP : Parameter.Domain σ P start.parameters) :
    Yields (start.populate : StateM σ (GeneticSearch α)) (·.Sound P start) := by
  refine (Sampling.samples_yields hP start.size).bind fun drawn hdrawn => .pure ⟨rfl, rfl, rfl, ?_, fun m hm => ?_⟩
  · exact (List.length_map _).trans hdrawn.1
  · obtain ⟨a, ha, rfl⟩ := List.mem_map.1 hm
    exact hdrawn.2 a ha

omit [Scalar α] [RandomSource σ α] in
theorem setFitness_eq {s : GeneticSearch α} {k : Nat} (hk : k < s.population.length) (x : α) :
    s.setFitness k x =
      .ok { s with population := s.population.modify k fun member => { member with fitness := x } } := by
  have hnegative : ¬ (k : Int) < 0 := by omega
  have hplace : (0 : Int) ≤ k ∧ (k : Int) < s.population.length := by omega
  unfold setFitness position?
  dsimp only
  rw [if_neg hnegative, if_pos hplace]
  rfl

omit [RandomSource σ α] in
/-- A fitness does not matter for what a member assigns. -/
theorem setFitness_sound {start s next : GeneticSearch α} (hs : s.Sound P start) {i : Int} {x : α}
    (h : s.setFitness i x = .ok next) : next.Sound P start := by
  unfold setFitness at h
  cases hposition : position? s.population.length i with
  | none =>
    rw [hposition] at h
    cases h
  | some k =>
    rw [hposition] at h
    cases h
    refine ⟨hs.parameters, hs.objective, hs.size, (List.length_modify ..).trans hs.members, fun m hm => ?_⟩
    obtain ⟨j, hj, rfl⟩ := List.getElem_of_mem hm
    have hplace : j < s.population.length := by rwa [List.length_modify] at hj
    rw [List.getElem_modify]
    split <;> exact hs.filled s.population[j] (List.getElem_mem hplace)

/-- The next generation comes about, and is as sound as the one before. -/
theorem evolve_ensures (hsource : RandomSource.Bounded σ α) {start : GeneticSearch α}
    (hP : Parameter.Domain σ P start.parameters) (hsize : 2 ≤ start.size) {s : GeneticSearch α} (hs : s.Sound P start) :
    Ensures (s.evolve : Draw σ α (GeneticSearch α)) (·.Sound P start) := by
  have hsurvivors : ∀ m ∈ s.ranked.take (s.size / 2), m.assignment.Filled P s.parameters := by
    intro m hm
    rw [hs.parameters]
    exact hs.filled m ((List.mergeSort_perm _ _).mem_iff.1 (List.mem_of_mem_take hm))
  have hlength : (s.ranked.take (s.size / 2)).length = s.size / 2 := by
    rw [List.length_take, ranked, List.length_mergeSort, hs.members, hs.size]
    omega
  have hparents : ∀ a ∈ (s.ranked.take (s.size / 2)).map (·.assignment), a.Filled P s.parameters := by
    intro a ha
    obtain ⟨m, hm, rfl⟩ := List.mem_map.1 ha
    exact hsurvivors m hm
  have hsome : 0 < ((s.ranked.take (s.size / 2)).map (·.assignment)).length := by
    rw [List.length_map, hlength, hs.size]
    omega
  rw [← hs.parameters] at hP
  refine (children_ensures hsource hP hsome hparents _).bind fun offspring hoffspring =>
    .pure ⟨hs.parameters, hs.objective, hs.size, ?_, fun m hm => ?_⟩
  · change (s.ranked.take (s.size / 2) ++ offspring).length = start.size
    rw [List.length_append, hlength, hoffspring.1, hs.size]
    omega
  · rw [← hs.parameters]
    rcases List.mem_append.1 hm with hm | hm
    · exact hsurvivors m hm
    · exact hoffspring.2 m hm

/-- What a search can become: it is populated, its members are rated in any way, and it evolves. -/
inductive Bred (σ : Type) [RandomSource σ α] (start : GeneticSearch α) : GeneticSearch α → Prop
  | populated (source : σ) : Bred σ start ((start.populate : StateM σ (GeneticSearch α)).run source).1
  | rated {s next : GeneticSearch α} (i : Int) (x : α) :
    Bred σ start s → s.setFitness i x = .ok next → Bred σ start next
  | evolved {s next : GeneticSearch α} (source last : σ) :
    Bred σ start s → (s.evolve : Draw σ α (GeneticSearch α)).run.run source = (.ok next, last) → Bred σ start next

theorem Bred.sound (hsource : RandomSource.Bounded σ α) {start s : GeneticSearch α}
    (hP : Parameter.Domain σ P start.parameters) (hsize : 2 ≤ start.size) (h : Bred σ start s) : s.Sound P start := by
  induction h with
  | populated source => exact populate_yields hP source
  | rated i x _ hrated ih => exact setFitness_sound ih hrated
  | evolved source last _ hevolved ih =>
    obtain ⟨next, last', hrun, hnext⟩ := evolve_ensures hsource hP hsize ih source
    rw [hevolved] at hrun
    cases hrun
    exact hnext

end GeneticSearch

end StrategyLab
