/-
Proposals of a search are complete. A condition on the scalars of parameters that sampling, mixing
and moving respect (`Domain`) holds of every sample, of every suggestion, and of every member of a
population after any generation; and since nothing is missing in a proposal, no search ends in a
fault. The source of random numbers is arbitrary, as long as a position below a positive count is
below it.
-/
import StrategyLab.Proofs.Agree
import StrategyLab.Proofs.Search.Complete
import StrategyLab.Search.Bayesian
import StrategyLab.Search.Genetic

namespace StrategyLab

/-! ## Draws -/

namespace Draw

variable {σ α β γ : Type}

/-- Whatever is drawn, the outcome has a property. -/
def Yields (m : StateM σ β) (Q : β → Prop) : Prop := ∀ s, Q (m.run s).1

/-- Whatever is drawn, there is no fault and the outcome has a property. -/
def Ensures (m : Draw σ α β) (Q : β → Prop) : Prop := ∀ s, ∃ b next, m.run.run s = (.ok b, next) ∧ Q b

theorem Yields.pure {Q : β → Prop} {b : β} (h : Q b) : Yields (Pure.pure b : StateM σ β) Q := fun _ => h

theorem Yields.bind {Q : β → Prop} {R : γ → Prop} {m : StateM σ β} {f : β → StateM σ γ} (hm : Yields m Q)
    (hf : ∀ b, Q b → Yields (f b) R) : Yields (m >>= f) R := fun s => hf _ (hm s) _

theorem Yields.mono {Q R : β → Prop} {m : StateM σ β} (hm : Yields m Q) (h : ∀ b, Q b → R b) : Yields m R :=
  fun s => h _ (hm s)

theorem Ensures.pure {Q : β → Prop} {b : β} (h : Q b) : Ensures (Pure.pure b : Draw σ α β) Q :=
  fun s => ⟨b, s, rfl, h⟩

theorem Ensures.bind {Q : β → Prop} {R : γ → Prop} {m : Draw σ α β} {f : β → Draw σ α γ} (hm : Ensures m Q)
    (hf : ∀ b, Q b → Ensures (f b) R) : Ensures (m >>= f) R := by
  intro s
  obtain ⟨b, next, hrun, hb⟩ := hm s
  obtain ⟨c, last, hrest, hc⟩ := hf b hb next
  refine ⟨c, last, ?_, hc⟩
  have hstep : (m >>= f).run.run s =
      match m.run.run s with
      | (.ok b, next) => (f b).run.run next
      | (.error e, next) => (.error e, next) := by
    change (ExceptT.bindCont f (m.run.run s).1).run (m.run.run s).2 = _
    rcases m.run.run s with ⟨_ | b, next⟩ <;> rfl
  rw [hstep, hrun]
  exact hrest

theorem Ensures.mono {Q R : β → Prop} {m : Draw σ α β} (hm : Ensures m Q) (h : ∀ b, Q b → R b) : Ensures m R := by
  intro s
  obtain ⟨b, next, hrun, hb⟩ := hm s
  exact ⟨b, next, hrun, h b hb⟩

theorem Yields.lift {Q : β → Prop} {m : StateM σ β} (hm : Yields m Q) : Ensures (liftM m : Draw σ α β) Q :=
  fun s => ⟨(m.run s).1, (m.run s).2, rfl, hm s⟩

theorem Ensures.ofValue {Q : β → Prop} {r : Except (ValueFault α) β} {b : β} (h : r = .ok b) (hb : Q b) :
    Ensures (ofValue r : Draw σ α β) Q := by
  rw [h]
  exact .pure hb

theorem Ensures.ofValue_bind {R : γ → Prop} {r : Except (ValueFault α) β} {b : β} {f : β → Draw σ α γ} (h : r = .ok b)
    (hf : Ensures (f b) R) : Ensures (Draw.ofValue r >>= f) R :=
  (Ensures.ofValue (Q := (b = ·)) h rfl).bind fun _ hb => hb ▸ hf

theorem Yields.times {Q : β → Prop} {m : StateM σ β} (hm : Yields m Q) (n : Nat) :
    Yields (times m n) fun xs => xs.length = n ∧ ∀ x ∈ xs, Q x := by
  induction n with
  | zero => exact .pure ⟨rfl, nofun⟩
  | succ n ih =>
    refine hm.bind fun x hx => ih.bind fun xs hxs => .pure ⟨?_, ?_⟩
    · rw [List.length_cons, hxs.1]
    · exact List.forall_mem_cons.2 ⟨hx, hxs.2⟩

end Draw

/-- A position that is drawn below a positive count is below it. -/
def RandomSource.Bounded (σ α : Type) [RandomSource σ α] : Prop :=
  ∀ (n : Nat) (s : σ), 0 < n → (RandomSource.below α n s).1 < n

open Draw

variable {σ α : Type} [Scalar α] [RandomSource σ α] {P : Parameter α → α → Prop} {ps : List (Parameter α)}

/-- A condition on the scalars of parameters that a search respects: it holds of what is drawn or
fixed, of mixtures, and of moved and newly chosen scalars. -/
structure Parameter.Domain (σ : Type) [RandomSource σ α] (P : Parameter α → α → Prop) (ps : List (Parameter α)) :
    Prop where
  agrees : Parameter.Agrees ps P
  drawn : ∀ p ∈ ps, ∀ d, p.dimension = some d → Yields (Sampling.drawFrom d : StateM σ α) (P p)
  fixed : ∀ p ∈ ps, p.dimension = none → P p p.fixedValue
  blended : ∀ p ∈ ps, ∀ x y, P p x → P p y → Yields (GeneticSearch.blend p x y : StateM σ α) (P p)
  moved : ∀ p ∈ ps, p.isDiscrete = false → ∀ x, P p x →
    Yields (Draw.unit : StateM σ α) fun share => P p (GeneticSearch.moved p x share)
  chosen : ∀ p ∈ ps, p.isDiscrete = true →
    Yields (Draw.below α p.choices.length : StateM σ Nat) fun k => P p (p.choices.getD k 0.0)

/-! ## Samples -/

namespace Sampling

theorem column_yields (hP : Parameter.Domain σ P ps) {p : Parameter α} (hp : p ∈ ps) (count : Nat) :
    Yields (column count p : StateM σ (List α)) fun xs => xs.length = count ∧ ∀ x ∈ xs, P p x := by
  unfold column
  cases hd : p.dimension with
  | some d => exact (hP.drawn p hp d hd).times count
  | none =>
    refine .pure ⟨List.length_replicate, fun x hx => ?_⟩
    rw [List.eq_of_mem_replicate hx]
    exact hP.fixed p hp hd

omit [RandomSource σ α] in
theorem putColumn_filled {all done : List (Parameter α)} (hagrees : Parameter.Agrees all P)
    (hdone : ∀ q ∈ done, q ∈ all) {p : Parameter α} (hp : p ∈ all) {values : List α} (hvalues : ∀ x ∈ values, P p x)
    {rows : List (Assignment α)} (hrows : ∀ a ∈ rows, Assignment.Filled P done a) :
    ∀ a ∈ putColumn p values rows, Assignment.Filled P (p :: done) a := by
  intro a ha
  obtain ⟨⟨row, x⟩, hmem, rfl⟩ := List.mem_map.1 ha
  obtain ⟨hrow, hx⟩ := List.of_mem_zip hmem
  exact (hrows row hrow).put hagrees hdone hp (hvalues x hx)

/-- The parameters before the given ones have their values, and the given ones get theirs. -/
theorem extend_yields {all : List (Parameter α)} (hP : Parameter.Domain σ P all) (count : Nat)
    (rest done : List (Parameter α)) (hrest : ∀ q ∈ rest, q ∈ all) (hdone : ∀ q ∈ done, q ∈ all)
    (rows : List (Assignment α)) (hlength : rows.length = count) (hrows : ∀ a ∈ rows, Assignment.Filled P done a) :
    Yields (extend count rest rows : StateM σ (List (Assignment α))) fun found =>
      found.length = count ∧ ∀ a ∈ found, Assignment.Filled P (rest.reverse ++ done) a := by
  induction rest generalizing done rows with
  | nil => exact .pure ⟨hlength, hrows⟩
  | cons p rest ih =>
    have hp : p ∈ all := hrest p List.mem_cons_self
    refine (column_yields hP hp count).bind fun values hvalues => ?_
    have hput := putColumn_filled hP.agrees hdone hp hvalues.2 hrows
    have hwidth : (putColumn p values rows).length = count := by
      rw [putColumn, List.length_map, List.length_zip, hlength, hvalues.1, Nat.min_self]
    refine (ih (p :: done) (fun q hq => hrest q (List.mem_cons_of_mem _ hq))
      (List.forall_mem_cons.2 ⟨hp, hdone⟩) _ hwidth hput).mono fun found hfound => ?_
    rw [List.reverse_cons, List.append_assoc]
    exact hfound

/-- Samples are filled, and there are as many as were asked for. -/
theorem samples_yields (hP : Parameter.Domain σ P ps) (count : Nat) :
    Yields (samples ps count : StateM σ (List (Assignment α))) fun found =>
      found.length = count ∧ ∀ a ∈ found, Assignment.Filled P ps a := by
  have hstart : ∀ a ∈ List.replicate count ([] : Assignment α), Assignment.Filled P [] a := fun a ha => by
    rw [List.eq_of_mem_replicate ha]
    exact Assignment.filled_nil P
  refine (extend_yields hP count ps [] (fun q hq => hq) nofun _ List.length_replicate hstart).mono
    fun found hfound => ⟨hfound.1, fun a ha => (hfound.2 a ha).congr fun q => ?_⟩
  rw [List.append_nil, List.mem_reverse]

end Sampling

/-! ## Scores -/

/-- Every field is a scalar or nothing. -/
def Object.Numeric (fields : Object α) : Prop := ∀ f ∈ fields, f.2 = .null ∨ ∃ x, f.2 = .real x

omit [RandomSource σ α] in
theorem Object.Numeric.oriented {scores : Object α} (h : scores.Numeric) (name : String) :
    ∃ x, Objective.oriented scores name = .ok x := by
  unfold Objective.oriented
  cases hfound : Object.get? scores name with
  | none => exact ⟨_, rfl⟩
  | some v =>
    rcases h _ (Object.mem_of_get? hfound) with hv | ⟨x, hv⟩
    · obtain rfl : v = .null := hv
      exact ⟨_, rfl⟩
    · obtain rfl : v = .real x := hv
      exact ⟨_, rfl⟩

/-! ## Suggestions -/

namespace BayesianSearch

omit [RandomSource σ α] in
theorem largestFrom_lt (best : α) (xs : List α) {found position : Nat} (h : found < position) :
    largestFrom best found position xs < position + xs.length := by
  induction xs generalizing best found position with
  | nil => exact h
  | cons x rest ih =>
    unfold largestFrom
    rw [List.length_cons]
    split
    · have : largestFrom x position (position + 1) rest < _ := ih x (Nat.lt_succ_self position)
      omega
    · have : largestFrom best found (position + 1) rest < _ := ih best (Nat.lt_succ_of_lt h)
      omega

omit [RandomSource σ α] in
theorem positionOfLargest_lt {xs : List α} (h : xs ≠ []) : positionOfLargest xs < xs.length := by
  cases xs with
  | nil => exact absurd rfl h
  | cons x rest =>
    have := largestFrom_lt x rest Nat.zero_lt_one
    rw [List.length_cons]
    exact Nat.lt_of_lt_of_eq this (Nat.add_comm 1 _)

/-- An observation that can be ranked, and compared with candidates. -/
structure Legible (s : BayesianSearch α) (o : Observation α) : Prop where
  assignment : o.assignment.Legible s.parameters
  scores : ∃ x, Objective.oriented o.scores s.objective = .ok x

omit [RandomSource σ α] in
theorem firstLargest_mem {β : Type} {items : List (β × α)} {best : β × α} (h : firstLargest items = some best) :
    best ∈ items := by
  cases items with
  | nil => cases h
  | cons first rest =>
    cases h
    exact foldl_larger_mem first rest

omit [RandomSource σ α] in
theorem best_legible {s : BayesianSearch α} (h : ∀ o ∈ s.observations, s.Legible o) :
    ∃ r, s.best = .ok r ∧ ∀ o, r = some o → o ∈ s.observations := by
  have hscores : ∀ o ∈ s.observations, ∃ x, Objective.oriented o.scores s.objective = .ok x := fun o ho =>
    (h o ho).scores
  choose! score hscore using hscores
  refine ⟨(firstLargest ((s.observations.map fun o => (o, score o)).filter fun c => Scalar.isFinite c.2)).map (·.1), ?_,
    fun o ho => ?_⟩
  · unfold best
    rw [mapM_beside hscore]
    rfl
  · obtain ⟨c, hc, rfl⟩ := Option.map_eq_some_iff.1 ho
    obtain ⟨o, hmem, rfl⟩ := List.mem_map.1 (List.mem_of_mem_filter (firstLargest_mem hc))
    exact hmem

omit [RandomSource σ α] in
theorem appeals_legible {s : BayesianSearch α} {anchor : Assignment α} (hanchor : anchor.Legible s.parameters)
    {drawn : List (Assignment α)} (hdrawn : ∀ c ∈ drawn, c.Legible s.parameters) :
    ∃ appeals, (drawn.mapM fun c => s.acquisition c anchor) = .ok appeals ∧ appeals.length = drawn.length := by
  have happeals : ∀ c ∈ drawn, ∃ x, s.acquisition c anchor = .ok x := by
    intro c hc
    obtain ⟨d, hd⟩ := Assignment.distance_legible (hdrawn c hc) hanchor
    unfold acquisition
    rw [hd]
    exact ⟨_, rfl⟩
  choose! x hx using happeals
  exact ⟨drawn.map x, mapM_ok hx, List.length_map x⟩

/-- A suggestion is filled, whatever has been observed. -/
theorem suggest_ensures {s : BayesianSearch α} (hP : Parameter.Domain σ P s.parameters) (hcandidates : 0 < s.candidates)
    (hlegible : ∀ o ∈ s.observations, s.Legible o) :
    Ensures (s.suggest : Draw σ α (Assignment α)) (Assignment.Filled P s.parameters) := by
  have hpick : ∀ {count k : Nat} {drawn : List (Assignment α)}, k < count →
      (drawn.length = count ∧ ∀ a ∈ drawn, Assignment.Filled P s.parameters a) →
      Assignment.Filled P s.parameters (drawn.getD k []) := by
    intro count k drawn hk hdrawn
    rw [← hdrawn.1] at hk
    rw [List.getD_eq_getElem _ _ hk]
    exact hdrawn.2 _ (List.getElem_mem hk)
  obtain ⟨r, hbest, hmem⟩ := best_legible hlegible
  refine Ensures.ofValue_bind hbest ?_
  cases r with
  | none =>
    refine (Sampling.samples_yields hP 1).lift.bind fun drawn hdrawn => .pure ?_
    have hfirst := hpick Nat.zero_lt_one hdrawn
    cases drawn with
    | nil => exact hfirst
    | cons a rest => exact hfirst
  | some anchor =>
    have hanchor := (hlegible anchor (hmem anchor rfl)).assignment
    refine (Sampling.samples_yields hP s.candidates).lift.bind fun drawn hdrawn => ?_
    obtain ⟨appeals, happeals, hlength⟩ := appeals_legible hanchor fun c hc => (hdrawn.2 c hc).legible
    refine .ofValue_bind happeals (.pure (hpick ?_ hdrawn))
    rw [← hdrawn.1, ← hlength]
    exact positionOfLargest_lt fun hnil => by
      rw [hnil] at hlength
      rw [← hdrawn.1, ← hlength] at hcandidates
      exact Nat.lt_irrefl 0 hcandidates

end BayesianSearch

end StrategyLab
