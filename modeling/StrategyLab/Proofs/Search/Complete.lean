/-
Complete assignments. An assignment stays within several parameters if every entry is a scalar for
one of them and none is given twice; it is filled if moreover each of them has a scalar, which is
one that an arbitrary condition permits. Parameters are told apart by their block and name, and the
condition has to agree where two have the same place (`Agrees`). `Filled.put` is the step: one more
parameter is given a scalar, or one that has a scalar is given another one.
-/
import StrategyLab.Proofs.Value.Alike
import StrategyLab.Search.Assignment

namespace StrategyLab

variable {α : Type} [Scalar α]

/-! ## Fields -/

namespace Object

theorem same_names {s t : String} : (Key.text s : Key α).same (.text t) = true ↔ s = t := by
  rw [same_text, Key.text.injEq]

theorem mem_insert {fs : Object α} {name : String} {v : Value α} {f : Key α × Value α}
    (h : f ∈ insert fs (.text name) v) : f = (.text name, v) ∨ f ∈ fs := by
  induction fs with
  | nil => exact .inl (List.mem_singleton.1 h)
  | cons g rest ih =>
    obtain ⟨k, w⟩ := g
    unfold insert at h
    split at h
    · rename_i hsame
      rw [same_text.1 hsame] at h
      rcases List.mem_cons.1 h with rfl | h
      · exact .inl rfl
      · exact .inr (List.mem_cons_of_mem _ h)
    · rcases List.mem_cons.1 h with rfl | h
      · exact .inr List.mem_cons_self
      · rcases ih h with rfl | h
        · exact .inl rfl
        · exact .inr (List.mem_cons_of_mem _ h)

theorem nodup_insert {fs : Object α} (h : (fs.map (·.1)).Nodup) (name : String) (v : Value α) :
    ((insert fs (.text name) v).map (·.1)).Nodup := by
  induction fs with
  | nil => exact List.nodup_singleton _
  | cons g rest ih =>
    obtain ⟨k, w⟩ := g
    rw [List.map_cons, List.nodup_cons] at h
    unfold insert
    split
    · exact List.nodup_cons.2 h
    · rename_i hdiffers
      refine List.nodup_cons.2 ⟨fun hk => ?_, ih h.2⟩
      obtain ⟨f, hf, hfk⟩ := List.mem_map.1 hk
      rcases mem_insert hf with rfl | hf
      · exact hdiffers (same_text.2 hfk.symm)
      · exact h.1 (List.mem_map.2 ⟨f, hf, hfk⟩)

end Object

/-! ## Conditions on single values -/

/-- Two parameters are the same entry of an assignment. -/
def Parameter.SamePlace (p q : Parameter α) : Prop := p.blockId = q.blockId ∧ p.name = q.name

/-- A condition on the scalars of parameters is the same for parameters of one place. -/
def Parameter.Agrees (ps : List (Parameter α)) (P : Parameter α → α → Prop) : Prop :=
  ∀ p ∈ ps, ∀ q ∈ ps, p.SamePlace q → ∀ x, P p x → P q x

namespace Assignment

/-! ## Single values -/

/-- The scalar assigned to a parameter. -/
def Gives (a : Assignment α) (p : Parameter α) (x : α) : Prop :=
  ∃ own, Object.get? a p.blockId = some (.object own) ∧ Object.get? own p.name = some (.real x)

theorem Gives.get {a : Assignment α} {p : Parameter α} {x : α} (h : a.Gives p x) : a.get p = .ok (some x) := by
  obtain ⟨own, hown, hx⟩ := h
  have hpresent : (Value.object own).isPresent = true := by
    cases own with
    | nil => cases hx
    | cons f rest => rfl
  have hfields : (Value.object own).asObject = .ok own := rfl
  unfold Assignment.get
  rw [hown, Option.filter_some, if_pos hpresent]
  dsimp only
  rw [hfields]
  simp only [bind, Except.bind, hx]
  rfl

theorem Gives.congr {a : Assignment α} {p q : Parameter α} {x : α} (h : a.Gives p x) (hpq : p.SamePlace q) :
    a.Gives q x := by
  unfold Gives at h ⊢
  rwa [← hpq.1, ← hpq.2]

theorem put_gives (a : Assignment α) (p : Parameter α) (x : α) : (a.put p x).Gives p x := by
  unfold Gives Assignment.put
  rw [Object.get?_insert, if_pos (Object.same_names.2 rfl)]
  refine ⟨_, rfl, ?_⟩
  rw [Object.get?_insert, if_pos (Object.same_names.2 rfl)]

theorem put_gives_other {a : Assignment α} {p q : Parameter α} {x y : α} (h : a.Gives q y)
    (hpq : ¬ q.SamePlace p) : (a.put p x).Gives q y := by
  obtain ⟨own, hown, hy⟩ := h
  unfold Gives Assignment.put
  rw [Object.get?_insert]
  by_cases hblock : p.blockId = q.blockId
  · rw [if_pos (Object.same_names.2 hblock), hblock, hown]
    refine ⟨_, rfl, ?_⟩
    rw [Object.get?_insert, if_neg fun hsame => hpq ⟨hblock.symm, (Object.same_names.1 hsame).symm⟩]
    exact hy
  · rw [if_neg fun hsame => hblock (Object.same_names.1 hsame)]
    exact ⟨own, hown, hy⟩

/-! ## Whole assignments -/

/-- What may be assigned to a block: scalars for its parameters, none given twice. -/
structure Fields (ps : List (Parameter α)) (block : String) (own : Object α) : Prop where
  names : (own.map (·.1)).Nodup
  entry : ∀ f ∈ own, ∃ p ∈ ps, p.blockId = block ∧ ∃ x, f = (.text p.name, .real x)

/-- Every entry is a scalar for one of the parameters, and none is given twice. -/
structure Within (ps : List (Parameter α)) (a : Assignment α) : Prop where
  blocks : (a.map (·.1)).Nodup
  entry : ∀ f ∈ a, ∃ block own, f = (.text block, .object own) ∧ Fields ps block own

omit [Scalar α] in
theorem Fields.mono {ps qs : List (Parameter α)} {block : String} {own : Object α} (h : Fields ps block own)
    (hpq : ∀ p ∈ ps, p ∈ qs) : Fields qs block own := by
  refine ⟨h.names, fun f hf => ?_⟩
  obtain ⟨p, hp, hrest⟩ := h.entry f hf
  exact ⟨p, hpq p hp, hrest⟩

omit [Scalar α] in
theorem Within.mono {ps qs : List (Parameter α)} {a : Assignment α} (h : Within ps a) (hpq : ∀ p ∈ ps, p ∈ qs) :
    Within qs a := by
  refine ⟨h.blocks, fun f hf => ?_⟩
  obtain ⟨block, own, heq, hown⟩ := h.entry f hf
  exact ⟨block, own, heq, hown.mono hpq⟩

omit [Scalar α] in
theorem within_nil (ps : List (Parameter α)) : Within ps [] := ⟨List.nodup_nil, nofun⟩

theorem Within.own {ps : List (Parameter α)} {a : Assignment α} (h : Within ps a) (block : String) :
    Object.get? a block = none ∨ ∃ own, Object.get? a block = some (.object own) ∧ Fields ps block own := by
  cases hfound : Object.get? a block with
  | none => exact .inl rfl
  | some v =>
    obtain ⟨block', own, heq, hown⟩ := h.entry _ (Object.mem_of_get? hfound)
    cases heq
    exact .inr ⟨own, rfl, hown⟩

theorem Within.set {ps : List (Parameter α)} {a : Assignment α} (h : Within ps a) (p : Parameter α) (x : α) :
    a.set p x = .ok (a.put p x) := by
  unfold Assignment.set
  rcases h.own p.blockId with hnone | ⟨own, hown, -⟩
  · rw [hnone]
  · rw [hown]

theorem Fields.insert {ps : List (Parameter α)} {own : Object α} {p : Parameter α} (h : Fields ps p.blockId own)
    (x : α) : Fields (p :: ps) p.blockId (Object.insert own (.text p.name) (.real x)) := by
  refine ⟨Object.nodup_insert h.names _ _, fun f hf => ?_⟩
  rcases Object.mem_insert hf with rfl | hf
  · exact ⟨p, List.mem_cons_self, rfl, x, rfl⟩
  · exact (h.mono fun q hq => List.mem_cons_of_mem _ hq).entry f hf

theorem Within.put {ps : List (Parameter α)} {a : Assignment α} (h : Within ps a) (p : Parameter α) (x : α) :
    Within (p :: ps) (a.put p x) := by
  have hown : Fields ps p.blockId (((Object.get? a p.blockId).bind Value.fields?).getD []) := by
    rcases h.own p.blockId with hnone | ⟨own, hown, hfields⟩
    · rw [hnone]
      exact ⟨List.nodup_nil, nofun⟩
    · rw [hown]
      exact hfields
  refine ⟨Object.nodup_insert h.blocks _ _, fun f hf => ?_⟩
  rcases Object.mem_insert hf with rfl | hf
  · exact ⟨_, _, rfl, hown.insert x⟩
  · exact (h.mono fun q hq => List.mem_cons_of_mem _ hq).entry f hf

/-- An assignment within the parameters that gives each of them a scalar that is permitted. -/
structure Filled (P : Parameter α → α → Prop) (ps : List (Parameter α)) (a : Assignment α) : Prop where
  within : Within ps a
  gives : ∀ p ∈ ps, ∃ x, a.Gives p x ∧ P p x

theorem filled_nil (P : Parameter α → α → Prop) : Filled P [] [] := ⟨within_nil [], nofun⟩

theorem Filled.get {P : Parameter α → α → Prop} {ps : List (Parameter α)} {a : Assignment α} (h : Filled P ps a)
    {p : Parameter α} (hp : p ∈ ps) : ∃ x, a.get p = .ok (some x) ∧ P p x := by
  obtain ⟨x, hx, hP⟩ := h.gives p hp
  exact ⟨x, hx.get, hP⟩

theorem Filled.congr {P : Parameter α → α → Prop} {ps qs : List (Parameter α)} {a : Assignment α}
    (h : Filled P ps a) (hpq : ∀ p, p ∈ ps ↔ p ∈ qs) : Filled P qs a :=
  ⟨h.within.mono fun p hp => (hpq p).1 hp, fun p hp => h.gives p ((hpq p).2 hp)⟩

theorem Filled.put {P : Parameter α → α → Prop} {all ps : List (Parameter α)} (hagrees : Parameter.Agrees all P)
    {a : Assignment α} (h : Filled P ps a) (hps : ∀ q ∈ ps, q ∈ all) {p : Parameter α} (hp : p ∈ all) {x : α}
    (hx : P p x) : Filled P (p :: ps) (a.put p x) := by
  refine ⟨h.within.put p x, fun q hq => ?_⟩
  rcases List.mem_cons.1 hq with rfl | hq
  · exact ⟨x, put_gives a q x, hx⟩
  · by_cases hsame : p.SamePlace q
    · exact ⟨x, (put_gives a p x).congr hsame, hagrees p hp q (hps q hq) hsame x hx⟩
    · obtain ⟨y, hy, hP⟩ := h.gives q hq
      exact ⟨y, put_gives_other hy fun hqp => hsame ⟨hqp.1.symm, hqp.2.symm⟩, hP⟩

/-- Parameters that each have a value can all be assigned one. -/
theorem exists_filled {P : Parameter α → α → Prop} {all ps : List (Parameter α)} (hagrees : Parameter.Agrees all P)
    (hvalues : ∀ p ∈ all, ∃ x, P p x) (hps : ∀ q ∈ ps, q ∈ all) : ∃ a : Assignment α, a.Filled P ps := by
  induction ps with
  | nil => exact ⟨[], filled_nil P⟩
  | cons p rest ih =>
    obtain ⟨hp, hrest⟩ := List.forall_mem_cons.1 hps
    obtain ⟨a, ha⟩ := ih hrest
    obtain ⟨x, hx⟩ := hvalues p hp
    exact ⟨a.put p x, ha.put hagrees hrest hp hx⟩

/-- The scalar of one parameter is replaced. -/
theorem Filled.replace {P : Parameter α → α → Prop} {ps : List (Parameter α)} (hagrees : Parameter.Agrees ps P)
    {a : Assignment α} (h : Filled P ps a) {p : Parameter α} (hp : p ∈ ps) {x : α} (hx : P p x) :
    Filled P ps (a.put p x) := by
  refine (h.put hagrees (fun q hq => hq) hp hx).congr fun q => ?_
  rw [List.mem_cons, or_iff_right_of_imp]
  rintro rfl
  exact hp

/-! ## Distances -/

/-- The numbers of all parameters can be read. -/
def Legible (ps : List (Parameter α)) (a : Assignment α) : Prop := ∀ p ∈ ps, ∃ r, a.get p = .ok r

theorem Filled.legible {P : Parameter α → α → Prop} {ps : List (Parameter α)} {a : Assignment α}
    (h : Filled P ps a) : Legible ps a := by
  intro p hp
  obtain ⟨x, hx, -⟩ := h.get hp
  exact ⟨some x, hx⟩

/-- Whatever is assigned within some parameters can be read for any. -/
theorem Within.legible {ps : List (Parameter α)} {a : Assignment α} (h : Within ps a) (qs : List (Parameter α)) :
    Legible qs a := by
  intro p _
  unfold Assignment.get
  rcases h.own p.blockId with hnone | ⟨own, hown, hfields⟩
  · rw [hnone]
    exact ⟨none, rfl⟩
  · have hobject : (Value.object own).asObject = .ok own := rfl
    rw [hown, Option.filter_some]
    split
    · exact ⟨none, rfl⟩
    · rename_i v hv
      split at hv
      · cases hv
        rw [hobject]
        simp only [bind, Except.bind]
        cases hfound : Object.get? own p.name with
        | none => exact ⟨none, rfl⟩
        | some v =>
          obtain ⟨q, -, -, x, hx⟩ := hfields.entry _ (Object.mem_of_get? hfound)
          obtain rfl : v = .real x := congrArg Prod.snd hx
          exact ⟨some x, rfl⟩
      · cases hv

theorem Legible.places {ps : List (Parameter α)} {a : Assignment α} (h : Legible ps a) :
    ∃ xs, places ps a = .ok xs := by
  have hplace : ∀ p ∈ ps, ∃ x, place a p = .ok x := by
    intro p hp
    obtain ⟨r, hr⟩ := h p hp
    unfold Assignment.place
    rw [hr]
    exact ⟨_, rfl⟩
  choose! x hx using hplace
  exact ⟨_, mapM_ok hx⟩

theorem distance_legible {ps : List (Parameter α)} {a b : Assignment α} (ha : Legible ps a) (hb : Legible ps b) :
    ∃ d, distance ps a b = .ok d := by
  obtain ⟨xs, hxs⟩ := ha.places
  obtain ⟨ys, hys⟩ := hb.places
  unfold Assignment.distance
  rw [hxs, hys]
  exact ⟨_, rfl⟩

end Assignment

end StrategyLab
