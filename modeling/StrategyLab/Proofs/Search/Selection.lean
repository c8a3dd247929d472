/-
Selection in a search by generations. As long as no fitness is undefined, the ranked members are the members sorted
from the fittest on, equally fit ones in their old order (`ranked_ranking`); the next generation is the first half of
them and newborn children, and its best fitness is that of the old one (`evolve_elitist`). A member may be rated at
any time by a score of its assignment: the best fitness then does not decrease (`Rated.best_not_less`).
-/
import StrategyLab.Proofs.Number.Extended
import StrategyLab.Proofs.Search.Generation

namespace StrategyLab

open Draw

/-! ## The order of defined scalars -/

/-- Scalars that are defined, infinite ones included, are compared as numbers are; negative infinity is the least, and
what is finite is defined, and so is its opposite. -/
structure Scalar.Comparable (α : Type) [Scalar α] : Prop where
  asymm {x y : α} : x < y → ¬ y < x
  trans {x y z : α} : isUndefined y = false → ¬ x < y → ¬ y < z → ¬ x < z
  bottom (x : α) : ¬ x < negativeInfinity
  bottom_defined : isUndefined (negativeInfinity : α) = false
  finite_defined {x : α} : isFinite x = true → isUndefined x = false ∧ isUndefined (-x) = false

open Extended in
theorem Extended.comparable [ExactArithmetic] : Scalar.Comparable Extended where
  asymm {x y} h h' := by
    change less x y = true at h
    change less y x = true at h'
    cases x <;> cases y <;> simp only [less, decide_eq_true_eq, Bool.and_eq_true, Bool.not_eq_true'] at h h'
    case finite.finite => exact lt_asymm h h'
    all_goals simp_all
  trans {x y z} hy hxy hyz hxz := by
    change ¬ less x y = true at hxy
    change ¬ less y z = true at hyz
    change less x z = true at hxz
    cases y with
    | finite q =>
      cases x <;> cases z <;> simp only [less, decide_eq_true_eq, Bool.and_eq_true, Bool.not_eq_true'] at hxy hyz hxz
      case finite.finite => exact hxy (hxz.trans_le (not_lt.1 hyz))
      all_goals simp_all
    | infinite b => cases x <;> cases z <;> cases b <;> simp_all [less]
    | undefined => cases hy
  bottom x h := by
    change less x (infinite true) = true at h
    cases x <;> simp [less] at h
  bottom_defined := rfl
  finite_defined {x} hx := by
    obtain ⟨q, rfl⟩ := isFinite_iff.1 hx
    exact ⟨isUndefined_finite q, isUndefined_finite (-q)⟩

variable {α : Type} [Scalar α]

/-! ## The largest scalar -/

namespace Parameter

theorem foldl_greatest_eq {x : α} {xs : List α} (h : ∀ y ∈ xs, ¬ x < y) : xs.foldl Scalar.greatest x = x := by
  induction xs with
  | nil => rfl
  | cons y xs ih =>
    rw [List.forall_mem_cons] at h
    rw [List.foldl_cons, Scalar.greatest, if_neg h.1]
    exact ih h.2

theorem foldl_greatest_lt {x y : α} {xs : List α} (hy : y < x) (h : ∀ z ∈ xs, z < x) :
    xs.foldl Scalar.greatest y < x := by
  induction xs generalizing y with
  | nil => exact hy
  | cons z xs ih =>
    rw [List.forall_mem_cons] at h
    rw [List.foldl_cons]
    refine ih ?_ h.2
    unfold Scalar.greatest
    split
    · exact h.1
    · exact hy

/-- The largest scalar is the first one that no other exceeds. -/
theorem largest_eq {x : α} {before after : List α} (hbefore : ∀ y ∈ before, y < x) (hafter : ∀ y ∈ after, ¬ x < y) :
    largest (before ++ x :: after) = x := by
  cases before with
  | nil => exact foldl_greatest_eq hafter
  | cons y before =>
    rw [List.forall_mem_cons] at hbefore
    unfold largest
    rw [List.cons_append]
    dsimp only
    rw [List.foldl_append, List.foldl_cons, Scalar.greatest, if_pos (foldl_greatest_lt hbefore.1 hbefore.2)]
    exact foldl_greatest_eq hafter

/-- The largest of defined scalars is one of them, and none exceeds it. -/
theorem foldl_greatest_spec (hα : Scalar.Comparable α) {x : α} {xs : List α}
    (h : ∀ y ∈ x :: xs, Scalar.isUndefined y = false) :
    xs.foldl Scalar.greatest x ∈ x :: xs ∧ ∀ y ∈ x :: xs, ¬ xs.foldl Scalar.greatest x < y := by
  have hirrefl : ∀ z : α, ¬ z < z := fun z hz => hα.asymm hz hz
  induction xs generalizing x with
  | nil => exact ⟨List.mem_cons_self, List.forall_mem_singleton.2 (hirrefl x)⟩
  | cons y xs ih =>
    obtain ⟨hx, hy, hxs⟩ : Scalar.isUndefined x = false ∧ Scalar.isUndefined y = false ∧
        ∀ z ∈ xs, Scalar.isUndefined z = false := by
      rwa [List.forall_mem_cons, List.forall_mem_cons] at h
    obtain ⟨hmem, hdefined, hless, hless'⟩ : (Scalar.greatest x y = x ∨ Scalar.greatest x y = y) ∧
        Scalar.isUndefined (Scalar.greatest x y) = false ∧ ¬ Scalar.greatest x y < x ∧ ¬ Scalar.greatest x y < y := by
      unfold Scalar.greatest
      split
      · rename_i hlt
        exact ⟨.inr rfl, hy, hα.asymm hlt, hirrefl y⟩
      · rename_i hnot
        exact ⟨.inl rfl, hx, hirrefl x, hnot⟩
    obtain ⟨hfound, hbound⟩ := ih (List.forall_mem_cons.2 ⟨hdefined, hxs⟩)
    rw [List.forall_mem_cons] at hbound
    rw [List.foldl_cons]
    refine ⟨?_, List.forall_mem_cons.2 ⟨hα.trans hdefined hbound.1 hless,
      List.forall_mem_cons.2 ⟨hα.trans hdefined hbound.1 hless', hbound.2⟩⟩⟩
    rcases List.mem_cons.1 hfound with hfound | hfound
    · rcases hmem with hmem | hmem <;> rw [hfound, hmem] <;> simp
    · exact List.mem_cons_of_mem x (List.mem_cons_of_mem y hfound)

theorem largest_spec (hα : Scalar.Comparable α) {xs : List α} (hne : xs ≠ [])
    (h : ∀ y ∈ xs, Scalar.isUndefined y = false) : largest xs ∈ xs ∧ ∀ y ∈ xs, ¬ largest xs < y := by
  cases xs with
  | nil => exact absurd rfl hne
  | cons x xs => exact foldl_greatest_spec hα h

end Parameter

/-! ## Ranking -/

namespace GeneticSearch

/-- Two members are equally fit. -/
def tied (m k : Individual α) : Bool := !decide (m.fitness < k.fitness) && !decide (k.fitness < m.fitness)

/-- An order of the members of a population from the fittest on; equally fit ones keep their order. -/
structure Ranking (population order : List (Individual α)) : Prop where
  perm : order.Perm population
  descending : order.Pairwise fun a b => ¬ a.fitness < b.fitness
  stable : ∀ m ∈ population, order.filter (tied m) = population.filter (tied m)

/-- A member stands before another one, or at the same place: an undefined fitness comes last. -/
def standsBefore (a b : Individual α) : Bool :=
  Scalar.isUndefined b.fitness || !Scalar.isUndefined a.fitness && !decide (a.fitness < b.fitness)

theorem standsBefore_iff {a b : Individual α} (ha : Scalar.isUndefined a.fitness = false)
    (hb : Scalar.isUndefined b.fitness = false) : standsBefore a b = true ↔ ¬ a.fitness < b.fitness := by
  unfold standsBefore
  rw [ha, hb]
  simp

theorem standsBefore_trans (hα : Scalar.Comparable α) (a b c : Individual α) (hab : standsBefore a b = true)
    (hbc : standsBefore b c = true) : standsBefore a c = true := by
  cases hc : Scalar.isUndefined c.fitness with
  | true => simp [standsBefore, hc]
  | false =>
    have hb : Scalar.isUndefined b.fitness = false := by
      cases hb : Scalar.isUndefined b.fitness with
      | false => rfl
      | true => simp [standsBefore, hb, hc] at hbc
    have ha : Scalar.isUndefined a.fitness = false := by
      cases ha : Scalar.isUndefined a.fitness with
      | false => rfl
      | true => simp [standsBefore, ha, hb] at hab
    rw [standsBefore_iff ha hc]
    exact hα.trans hb ((standsBefore_iff ha hb).1 hab) ((standsBefore_iff hb hc).1 hbc)

theorem standsBefore_total (hα : Scalar.Comparable α) (a b : Individual α) :
    (standsBefore a b || standsBefore b a) = true := by
  cases ha : Scalar.isUndefined a.fitness with
  | true => simp [standsBefore, ha]
  | false =>
    cases hb : Scalar.isUndefined b.fitness with
    | true => simp [standsBefore, hb]
    | false =>
      by_cases hless : a.fitness < b.fitness
      · rw [(standsBefore_iff hb ha).2 (hα.asymm hless), Bool.or_true]
      · rw [(standsBefore_iff ha hb).2 hless, Bool.true_or]

/-- No fitness is undefined. -/
def Defined (members : List (Individual α)) : Prop := ∀ m ∈ members, Scalar.isUndefined m.fitness = false

theorem ranked_eq {s : GeneticSearch α} (hdefined : Defined s.population) :
    s.ranked = s.population.mergeSort standsBefore := by
  have hsame : ∀ a ∈ s.population, ∀ b ∈ s.population,
      (!decide (a.fitness < b.fitness)) = standsBefore (id a) (id b) := by
    intro a ha b hb
    unfold standsBefore
    rw [id, id, hdefined a ha, hdefined b hb]
    rfl
  have hsort := List.map_mergeSort hsame
  rwa [List.map_id, List.map_id] at hsort

theorem tied_self (hα : Scalar.Comparable α) (m : Individual α) : tied m m = true := by
  have hirrefl : ¬ m.fitness < m.fitness := fun h => hα.asymm h h
  simp [tied, hirrefl]

/-- The ranked members are a ranking. -/
theorem ranked_ranking (hα : Scalar.Comparable α) {s : GeneticSearch α} (hdefined : Defined s.population) :
    Ranking s.population s.ranked := by
  have hperm : s.ranked.Perm s.population := List.mergeSort_perm _ _
  refine ⟨hperm, ?_, fun m hm => ?_⟩
  · have hsorted := List.pairwise_mergeSort (standsBefore_trans hα) (standsBefore_total hα) s.population
    rw [← ranked_eq hdefined] at hsorted
    refine hsorted.imp_of_mem fun {a b} ha hb hab => ?_
    exact (standsBefore_iff (hdefined a (hperm.mem_iff.1 ha)) (hdefined b (hperm.mem_iff.1 hb))).1 hab
  · -- equally fit members are sorted already, and a stable sort keeps them
    have htied : (s.population.filter (tied m)).Pairwise fun a b => standsBefore a b = true := by
      refine List.pairwise_iff_forall_sublist.2 fun {a b} hab => ?_
      obtain ⟨ha, hma⟩ := List.mem_filter.1 (hab.subset List.mem_cons_self)
      obtain ⟨hb, hmb⟩ := List.mem_filter.1 (hab.subset (List.mem_cons_of_mem a List.mem_cons_self))
      simp only [tied, Bool.and_eq_true, Bool.not_eq_true', decide_eq_false_iff_not] at hma hmb
      exact (standsBefore_iff (hdefined a ha) (hdefined b hb)).2 (hα.trans (hdefined m hm) hma.2 hmb.1)
    have hsub := List.sublist_mergeSort (standsBefore_trans hα) (standsBefore_total hα) htied List.filter_sublist
    rw [← ranked_eq hdefined] at hsub
    have hsub' := hsub.filter (tied m)
    rw [List.filter_filter] at hsub'
    simp only [Bool.and_self] at hsub'
    exact (hsub'.eq_of_length (hperm.filter (tied m)).length_eq.symm).symm

/-! ## The best fitness -/

/-- The largest fitness of the members. -/
def best (s : GeneticSearch α) : α := Parameter.largest (s.population.map (·.fitness))

theorem best_cons {s : GeneticSearch α} {m : Individual α} {others : List (Individual α)}
    (hs : s.population = m :: others) (h : ∀ k ∈ others, ¬ m.fitness < k.fitness) : s.best = m.fitness := by
  unfold best
  rw [hs, List.map_cons]
  refine Parameter.foldl_greatest_eq fun y hy => ?_
  obtain ⟨k, hk, rfl⟩ := List.mem_map.1 hy
  exact h k hk

/-- The best fitness is that of the first member of a ranking. -/
theorem best_ranking (hα : Scalar.Comparable α) {s : GeneticSearch α} {m : Individual α} {others : List (Individual α)}
    (h : Ranking s.population (m :: others)) : s.best = m.fitness := by
  have hhead := List.pairwise_cons.1 h.descending
  have hm : m ∈ s.population := h.perm.mem_iff.1 List.mem_cons_self
  have hexceeds : ∀ k ∈ s.population, ¬ m.fitness < k.fitness := by
    intro k hk
    rcases List.mem_cons.1 (h.perm.mem_iff.2 hk) with rfl | hk
    · exact fun hless => hα.asymm hless hless
    · exact hhead.1 k hk
  -- it is the first of the fittest in the population, too, because the ranking is stable
  have hfirst := (h.stable m hm).symm
  rw [List.filter_cons_of_pos (tied_self hα m)] at hfirst
  obtain ⟨before, after, hsplit, hbefore, -, -⟩ := List.filter_eq_cons_iff.1 hfirst
  unfold best
  rw [hsplit, List.map_append, List.map_cons]
  refine Parameter.largest_eq (fun y hy => ?_) fun y hy => ?_
  · obtain ⟨k, hk, rfl⟩ := List.mem_map.1 hy
    have hmk := hexceeds k (hsplit ▸ List.mem_append_left _ hk)
    have hdiffers := hbefore k hk
    simp only [tied, hmk, decide_false, Bool.not_false, Bool.true_and, Bool.not_eq_true', decide_eq_false_iff_not,
      not_not] at hdiffers
    exact hdiffers
  · obtain ⟨k, hk, rfl⟩ := List.mem_map.1 hy
    exact hexceeds k (hsplit ▸ List.mem_append_right _ (List.mem_cons_of_mem m hk))

/-! ## Children -/

variable {σ : Type} [RandomSource σ α] {ps : List (Parameter α)}

omit [Scalar α] [RandomSource σ α] in
/-- Whatever is drawn, a computation goes on. -/
theorem ensures_draw_bind {β γ : Type} {R : γ → Prop} {m : StateM σ β} {f : β → Draw σ α γ}
    (h : ∀ b, Ensures (f b) R) : Ensures (liftM m >>= f) R :=
  (Yields.lift (Q := fun _ => True) fun _ => trivial).bind fun b _ => h b

theorem crossoverFrom_within {a b : Assignment α} (ha : a.Legible ps) (hb : b.Legible ps) (rest : List (Parameter α))
    (hrest : ∀ q ∈ rest, q ∈ ps) {grown : Assignment α} (hgrown : grown.Within ps) :
    Ensures (crossoverFrom a b rest grown : Draw σ α (Assignment α)) (Assignment.Within ps) := by
  induction rest generalizing grown with
  | nil => exact .pure hgrown
  | cons p rest ih =>
    rw [List.forall_mem_cons] at hrest
    obtain ⟨x, hx⟩ := ha p hrest.1
    obtain ⟨y, hy⟩ := hb p hrest.1
    refine .ofValue_bind hx (.ofValue_bind hy ?_)
    cases x with
    | none => exact ih hrest.2 hgrown
    | some x =>
      cases y with
      | none => exact ih hrest.2 hgrown
      | some y =>
        refine ensures_draw_bind fun z => ?_
        refine .ofValue_bind (hgrown.set p z) (ih hrest.2 ?_)
        exact (hgrown.put p z).mono (List.forall_mem_cons.2 ⟨hrest.1, fun _ hq => hq⟩)

theorem mutateAt_within {p : Parameter α} (hp : p ∈ ps) {a : Assignment α} (ha : a.Within ps) :
    Ensures (mutateAt p a : Draw σ α (Assignment α)) (Assignment.Within ps) := by
  have hput : ∀ x, (a.put p x).Within ps := fun x => (ha.put p x).mono (List.forall_mem_cons.2 ⟨hp, fun _ hq => hq⟩)
  unfold mutateAt
  cases hdiscrete : p.isDiscrete with
  | true => exact ensures_draw_bind fun k => .ofValue (ha.set p _) (hput _)
  | false =>
    obtain ⟨r, hr⟩ := ha.legible ps p hp
    refine .ofValue_bind hr ?_
    cases r with
    | none => exact .pure ha
    | some x => exact ensures_draw_bind fun share => .ofValue (ha.set p _) (hput _)

theorem mutateFrom_within (rate : α) (rest : List (Parameter α)) (hrest : ∀ q ∈ rest, q ∈ ps) {a : Assignment α}
    (ha : a.Within ps) : Ensures (mutateFrom rate rest a : Draw σ α (Assignment α)) (Assignment.Within ps) := by
  induction rest generalizing a with
  | nil => exact .pure ha
  | cons p rest ih =>
    rw [List.forall_mem_cons] at hrest
    refine ensures_draw_bind fun u => ?_
    dsimp only
    split
    · exact (Ensures.pure ha).bind fun b hb => ih hrest.2 hb
    · exact (mutateAt_within hrest.1 ha).bind fun b hb => ih hrest.2 hb

/-- A child of parents that can be read is newborn, and within the parameters. -/
theorem child_newborn (s : GeneticSearch α) {parents : List (Assignment α)}
    (hparents : ∀ a ∈ parents, a.Legible s.parameters) : Ensures (s.child parents : Draw σ α (Individual α)) fun m =>
      m = newborn m.assignment ∧ m.assignment.Within s.parameters := by
  have hpick : ∀ k, (parents.getD k []).Legible s.parameters := by
    intro k
    rw [List.getD_eq_getElem?_getD]
    cases hk : parents[k]? with
    | none => exact (Assignment.within_nil s.parameters).legible s.parameters
    | some a => exact hparents a (List.mem_of_getElem? hk)
  refine ensures_draw_bind fun i => ensures_draw_bind fun j => ?_
  refine (crossoverFrom_within (hpick i) (hpick j) _ (fun _ hq => hq) (Assignment.within_nil _)).bind
    fun mixed hmixed => ?_
  exact (mutateFrom_within _ _ (fun _ hq => hq) hmixed).bind fun changed hchanged => .pure ⟨rfl, hchanged⟩

theorem children_newborn (s : GeneticSearch α) {parents : List (Assignment α)}
    (hparents : ∀ a ∈ parents, a.Legible s.parameters) (n : Nat) :
    Ensures (s.children parents n : Draw σ α (List (Individual α))) fun ms =>
      ms.length = n ∧ ∀ m ∈ ms, m = newborn m.assignment ∧ m.assignment.Within s.parameters := by
  induction n with
  | zero => exact .pure ⟨rfl, nofun⟩
  | succ n ih =>
    refine (child_newborn s hparents).bind fun first hfirst => ih.bind fun rest hrest => .pure ⟨?_, ?_⟩
    · rw [List.length_cons, hrest.1]
    · exact List.forall_mem_cons.2 ⟨hfirst, hrest.2⟩

/-! ## The next generation -/

/-- The next generation keeps the fitter half, and nothing else that was there before. -/
structure Elitist (s next : GeneticSearch α) : Prop where
  members : next.population.length = s.size
  /-- The survivors are the first of a ranking, with their assignments and fitness. -/
  survivors : ∃ order, Ranking s.population order ∧ next.population.take (s.size / 2) = order.take (s.size / 2)
  others : ∀ m ∈ next.population.drop (s.size / 2), m = newborn m.assignment
  generation : next.generation = s.generation + 1
  best : next.best = s.best

/-- Evolving gives the fitter half of the ranked members, and newborn children. -/
theorem evolve_ranked (s : GeneticSearch α) (hlegible : ∀ m ∈ s.population, m.assignment.Legible s.parameters) :
    Ensures (s.evolve : Draw σ α (GeneticSearch α)) fun next => ∃ offspring,
      next = { s with population := s.ranked.take (s.size / 2) ++ offspring, generation := s.generation + 1 } ∧
      offspring.length = s.size - s.size / 2 ∧
      ∀ m ∈ offspring, m = newborn m.assignment ∧ m.assignment.Within s.parameters := by
  have hparents : ∀ a ∈ (s.ranked.take (s.size / 2)).map (·.assignment), a.Legible s.parameters := by
    intro a ha
    obtain ⟨m, hm, rfl⟩ := List.mem_map.1 ha
    exact hlegible m ((List.mergeSort_perm _ _).mem_iff.1 (List.mem_of_mem_take hm))
  exact (children_newborn s hparents _).bind fun offspring hoffspring => .pure ⟨offspring, rfl, hoffspring⟩

/-- A population of the right number, with assignments that can be read and with defined fitness. -/
structure Ready (s : GeneticSearch α) : Prop where
  two : 2 ≤ s.size
  members : s.population.length = s.size
  legible : ∀ m ∈ s.population, m.assignment.Legible s.parameters
  defined : Defined s.population

omit [RandomSource σ α] in
/-- Where the first of a ranking is kept, and what is added is newborn, the best fitness stays. -/
theorem best_kept (hα : Scalar.Comparable α) {s next : GeneticSearch α} {order offspring : List (Individual α)} {k : Nat}
    (hranking : Ranking s.population order) (hsome : 0 < order.length) (hk : 0 < k)
    (hnext : next.population = order.take k ++ offspring) (hnewborn : ∀ m ∈ offspring, m = newborn m.assignment) :
    next.best = s.best := by
  obtain ⟨m, others, rfl⟩ := List.exists_cons_of_length_pos hsome
  obtain ⟨k, rfl⟩ := Nat.exists_eq_succ_of_ne_zero hk.ne'
  have hfirst : next.population = m :: (others.take k ++ offspring) := hnext
  rw [best_ranking hα hranking]
  refine best_cons hfirst fun y hy => ?_
  rcases List.mem_append.1 hy with hy | hy
  · exact (List.pairwise_cons.1 hranking.descending).1 y (List.mem_of_mem_take hy)
  · rw [hnewborn y hy]
    exact hα.bottom _

theorem evolve_elitist (hα : Scalar.Comparable α) {s : GeneticSearch α} (hs : s.Ready) :
    Ensures (s.evolve : Draw σ α (GeneticSearch α)) fun next => Elitist s next ∧ next.parameters = s.parameters ∧
      next.objective = s.objective ∧ next.size = s.size ∧
      ∀ m ∈ next.population, m ∈ s.population ∨ m = newborn m.assignment ∧ m.assignment.Within s.parameters := by
  refine (evolve_ranked s hs.legible).mono ?_
  rintro next ⟨offspring, rfl, hcount, hoffspring⟩
  have htwo := hs.two
  have hranking := ranked_ranking hα hs.defined
  have hlength : s.ranked.length = s.size := hranking.perm.length_eq.trans hs.members
  have hhalf : (s.ranked.take (s.size / 2)).length = s.size / 2 := by
    rw [List.length_take, hlength]
    omega
  refine ⟨⟨?_, ⟨s.ranked, hranking, List.take_left' hhalf⟩, ?_, rfl, ?_⟩, rfl, rfl, rfl, ?_⟩
  · show (s.ranked.take (s.size / 2) ++ offspring).length = s.size
    rw [List.length_append, hhalf, hcount]
    omega
  · intro m hm
    rw [List.drop_left' hhalf] at hm
    exact (hoffspring m hm).1
  · exact best_kept hα hranking (by omega) (by omega) rfl fun m hm => (hoffspring m hm).1
  · intro m hm
    rcases List.mem_append.1 hm with hm | hm
    · exact .inl (hranking.perm.mem_iff.1 (List.mem_of_mem_take hm))
    · exact .inr (hoffspring m hm)

/-! ## Ratings -/

/-- A member is rated by the score of its assignment. -/
def Rated (score : Assignment α → α) (s next : GeneticSearch α) : Prop :=
  ∃ (k : Nat) (m : Individual α), s.population[k]? = some m ∧ s.setFitness k (score m.assignment) = .ok next

omit [Scalar α] [RandomSource σ α] in
theorem Rated.split {score : Assignment α → α} {s next : GeneticSearch α} (h : Rated score s next) :
    ∃ before m after, s.population = before ++ m :: after ∧
      next = { s with population := before ++ { m with fitness := score m.assignment } :: after } := by
  obtain ⟨k, m, hm, hrated⟩ := h
  have hk : k < s.population.length := (List.getElem?_eq_some_iff.1 hm).1
  obtain ⟨before, found, after, hsplit, hlength, hmodify⟩ :=
    List.exists_of_modify (fun member : Individual α => { member with fitness := score m.assignment }) hk
  have hfound : found = m := by
    rw [hsplit, ← hlength, List.getElem?_append_right le_rfl, Nat.sub_self] at hm
    exact Option.some.inj hm
  rw [setFitness_eq hk, hmodify, hfound] at hrated
  exact ⟨before, m, after, hfound ▸ hsplit, (Except.ok.inj hrated).symm⟩

/-- A population of the right number, with assignments that can be read; each member is unrated, or rated by the
score of its assignment. -/
structure Standing (score : Assignment α → α) (s : GeneticSearch α) : Prop where
  two : 2 ≤ s.size
  members : s.population.length = s.size
  legible : ∀ m ∈ s.population, m.assignment.Legible s.parameters
  fitness : ∀ m ∈ s.population, m.fitness = Scalar.negativeInfinity ∨ m.fitness = score m.assignment

omit [RandomSource σ α] in
/-- A rating keeps all assignments. -/
theorem Rated.keeps {score : Assignment α → α} {s next : GeneticSearch α} (h : Rated score s next)
    (hs : s.Standing score) :
    next.Standing score ∧ next.objective = s.objective ∧ next.assignments = s.assignments := by
  obtain ⟨before, m, after, hsplit, rfl⟩ := h.split
  have hm : m ∈ s.population := hsplit ▸ List.mem_append_right _ List.mem_cons_self
  have hmember : ∀ k ∈ before ++ { m with fitness := score m.assignment } :: after,
      k = { m with fitness := score m.assignment } ∨ k ∈ s.population := by
    intro k hk
    rw [hsplit]
    simp only [List.mem_append, List.mem_cons] at hk ⊢
    tauto
  refine ⟨⟨hs.two, ?_, fun k hk => ?_, fun k hk => ?_⟩, rfl, ?_⟩
  · rw [← hs.members, hsplit]
    simp
  · rcases hmember k hk with rfl | hk
    · exact hs.legible m hm
    · exact hs.legible k hk
  · rcases hmember k hk with rfl | hk
    · exact .inr rfl
    · exact hs.fitness k hk
  · unfold assignments
    rw [hsplit]
    simp

section

variable {score : Assignment α → α} {s next : GeneticSearch α} (hα : Scalar.Comparable α)
  (hscore : ∀ a, Scalar.isUndefined (score a) = false)

include hα hscore

omit [RandomSource σ α] in
theorem Standing.ready (h : s.Standing score) : s.Ready := by
  refine ⟨h.two, h.members, h.legible, fun m hm => ?_⟩
  rcases h.fitness m hm with hm | hm
  · rw [hm]
    exact hα.bottom_defined
  · rw [hm]
    exact hscore _

omit [RandomSource σ α] in
theorem Standing.best_defined (h : s.Standing score) : Scalar.isUndefined s.best = false := by
  have hdefined := (h.ready hα hscore).defined
  have hne : s.population.map (·.fitness) ≠ [] := by
    have htwo := h.two
    have hmembers := h.members
    rintro hnil
    rw [List.map_eq_nil_iff] at hnil
    rw [hnil, List.length_nil] at hmembers
    omega
  obtain ⟨m, hm, hbest⟩ := List.mem_map.1 (Parameter.largest_spec hα hne (List.forall_mem_map.2 hdefined)).1
  unfold best
  rw [← hbest]
  exact hdefined m hm

omit hscore [RandomSource σ α] in
theorem best_not_less (hne : s.population ≠ []) (hs : Defined s.population) (hnext : Defined next.population)
    (h : ∀ m ∈ s.population, ∃ k ∈ next.population, ¬ k.fitness < m.fitness) : ¬ next.best < s.best := by
  have hne' : s.population.map (·.fitness) ≠ [] := by simpa using hne
  obtain ⟨hbest, -⟩ := Parameter.largest_spec hα hne' (List.forall_mem_map.2 hs)
  obtain ⟨m, hm, hfitness⟩ := List.mem_map.1 hbest
  obtain ⟨k, hk, hless⟩ := h m hm
  have hnext' : next.population.map (·.fitness) ≠ [] := List.ne_nil_of_mem (List.mem_map_of_mem hk)
  obtain ⟨-, hbound⟩ := Parameter.largest_spec hα hnext' (List.forall_mem_map.2 hnext)
  have hexceeds := hbound _ (List.mem_map_of_mem hk)
  unfold best
  rw [← hfitness]
  exact hα.trans (hnext k hk) hexceeds hless

omit [RandomSource σ α] in
/-- A rating does not lower the best fitness: what was rated before is rated by the same score. -/
theorem Rated.best_not_less (h : Rated score s next) (hs : s.Standing score) : ¬ next.best < s.best := by
  have hnext := (h.keeps hs).1
  obtain ⟨before, m, after, hsplit, rfl⟩ := h.split
  have hm : m ∈ s.population := hsplit ▸ List.mem_append_right _ List.mem_cons_self
  refine GeneticSearch.best_not_less hα (List.ne_nil_of_mem hm) (hs.ready hα hscore).defined
    (hnext.ready hα hscore).defined fun k hk => ?_
  have hself : ¬ k.fitness < k.fitness := fun hless => hα.asymm hless hless
  rw [hsplit, List.mem_append, List.mem_cons] at hk
  rcases hk with hk | rfl | hk
  · exact ⟨k, List.mem_append_left _ hk, hself⟩
  · refine ⟨_, List.mem_append_right _ List.mem_cons_self, ?_⟩
    dsimp only
    rcases hs.fitness k hm with hunrated | hrated
    · rw [hunrated]
      exact hα.bottom _
    · rwa [← hrated]
  · exact ⟨k, List.mem_append_right _ (List.mem_cons_of_mem _ hk), hself⟩

omit hscore in
/-- The next generation stands as the one before. -/
theorem Standing.evolve (hscore : ∀ a, Scalar.isUndefined (score a) = false) (hs : s.Standing score) {source last : σ}
    (h : (s.evolve : Draw σ α (GeneticSearch α)).run.run source = (.ok next, last)) :
    next.Standing score ∧ next.objective = s.objective ∧ next.best = s.best := by
  obtain ⟨found, last', hrun, helitist, hparameters, hobjective, hsize, hmembers⟩ :=
    evolve_elitist hα (hs.ready hα hscore) source
  rw [h] at hrun
  cases hrun
  refine ⟨⟨hsize ▸ hs.two, helitist.members.trans hsize.symm, fun m hm => ?_, fun m hm => ?_⟩, hobjective,
    helitist.best⟩
  · rw [hparameters]
    rcases hmembers m hm with hm | ⟨-, hm⟩
    · exact hs.legible m hm
    · exact hm.legible _
  · rcases hmembers m hm with hm | ⟨hm, -⟩
    · exact hs.fitness m hm
    · exact .inl (hm ▸ rfl)

end

end GeneticSearch

end StrategyLab
