/-
Values that JSON text cannot tell apart: they differ in the order of fields, or in whether a sequence
is fixed. They read alike as numbers, and their fields are alike name by name.
-/
import StrategyLab.Proofs.Agree
import StrategyLab.Proofs.Json.Canonical
import StrategyLab.Value.Reading

namespace StrategyLab

variable {α : Type} [Scalar α]

namespace Value

/-- Values that JSON text cannot tell apart. -/
def Alike (v w : Value α) : Prop := v.canonical = w.canonical

/-- Every value is a sequence, an object, or as it is in canonical form. -/
theorem shape (v : Value α) : (∃ items, Lists v items) ∨ (∃ fields, v = .object fields) ∨
    (v.canonical = v ∧ (∀ items, v ≠ .list items) ∧ ∀ fields, v ≠ .object fields) := by
  cases v
  case list items => exact .inl ⟨items, .list items⟩
  case tuple items => exact .inl ⟨items, .tuple items⟩
  case object fields => exact .inr (.inl ⟨fields, rfl⟩)
  all_goals exact .inr (.inr (by simp [canonical]))

/-- Values that are alike are the same, or sequences of values that are alike, or objects. -/
theorem Alike.cases {v w : Value α} (h : v.Alike w) : v = w ∨
    (∃ xs ys, Lists v xs ∧ Lists w ys ∧ xs.map canonical = ys.map canonical) ∨
    ∃ fs gs, v = .object fs ∧ w = .object gs := by
  unfold Alike at h
  rcases shape v with ⟨xs, hxs⟩ | ⟨fs, rfl⟩ | ⟨hv, hvlist, hvobject⟩
  · rw [hxs.canonical] at h
    rcases shape w with ⟨ys, hys⟩ | ⟨gs, rfl⟩ | ⟨hw, hwlist, -⟩
    · rw [hys.canonical] at h
      exact .inr (.inl ⟨xs, ys, hxs, hys, Value.list.inj h⟩)
    · rw [canonical_object] at h
      cases h
    · rw [hw] at h
      exact absurd h.symm (hwlist _)
  · rw [canonical_object] at h
    rcases shape w with ⟨ys, hys⟩ | ⟨gs, rfl⟩ | ⟨hw, -, hwobject⟩
    · rw [hys.canonical] at h
      cases h
    · exact .inr (.inr ⟨fs, gs, rfl, rfl⟩)
    · rw [hw] at h
      exact absurd h.symm (hwobject _)
  · rw [hv] at h
    rcases shape w with ⟨ys, hys⟩ | ⟨gs, rfl⟩ | ⟨hw, -, -⟩
    · rw [hys.canonical] at h
      exact absurd h (hvlist _)
    · rw [canonical_object] at h
      exact absurd h (hvobject _)
    · exact .inl (h.trans hw)

/-- Values that are alike are the same number, or neither of them is one. -/
theorem Alike.toReal {v w : Value α} (h : v.Alike w) : v = w ∨
    ∃ kind kind', v.toReal = .error (.realFromKind kind) ∧ w.toReal = .error (.realFromKind kind') := by
  rcases h.cases with rfl | ⟨xs, ys, hv, hw, -⟩ | ⟨fs, gs, rfl, rfl⟩
  · exact .inl rfl
  · cases hv <;> cases hw <;> exact .inr ⟨_, _, rfl, rfl⟩
  · exact .inr ⟨_, _, rfl, rfl⟩

/-- A value without objects and fixed sequences. -/
inductive Flat : Value α → Prop
  | null : Flat .null
  | truth (b : Bool) : Flat (.truth b)
  | num (x : Num α) : Flat (.num x)
  | text (s : String) : Flat (.text s)
  | list {items : List (Value α)} (hitems : ∀ v ∈ items, Flat v) : Flat (.list items)

theorem Flat.canonical {v : Value α} (h : v.Flat) : v.canonical = v := by
  induction h with
  | null | truth | num | text => simp [Value.canonical]
  | @list items _ ih => rw [canonical_list, List.map_congr_left ih, List.map_id']

/-- Flat values that are alike are the same. -/
theorem Flat.eq {v w : Value α} (hv : v.Flat) (hw : w.Flat) (h : v.Alike w) : v = w := by
  unfold Alike at h
  rwa [hv.canonical, hw.canonical] at h

end Value

/-! ## Fields -/

namespace Object

theorem same_text {k : Key α} {name : String} : k.same (.text name) = true ↔ k = .text name := by
  cases k <;> simp [Key.same, Key.number?]

theorem get?_cons (f : Key α × Value α) (rest : Object α) (name : String) :
    get? (f :: rest) name = if f.1.same (.text name) then some f.2 else get? rest name := by
  unfold get? find?
  rw [List.find?_cons]
  cases f.1.same (.text name) <;> rfl

theorem get?_append (fs gs : Object α) (name : String) : get? (fs ++ gs) name = (get? fs name).or (get? gs name) := by
  unfold get? find?
  rw [List.find?_append]
  cases List.find? (fun f => f.1.same (.text name)) fs <;> rfl

theorem mem_of_get? {fs : Object α} {name : String} {v : Value α} (h : get? fs name = some v) :
    (Key.text name, v) ∈ fs := by
  unfold get? find? at h
  obtain ⟨⟨k, w⟩, hfound, rfl⟩ := Option.map_eq_some_iff.1 h
  have hname := List.find?_some hfound
  rw [same_text] at hname
  rw [← hname]
  exact List.mem_of_find?_eq_some hfound

theorem get?_insert (fs : Object α) (key : Key α) (v : Value α) (name : String) :
    get? (insert fs key v) name = if key.same (.text name) then some v else get? fs name := by
  induction fs with
  | nil => rw [insert, get?_cons]
  | cons f rest ih =>
    obtain ⟨k, w⟩ := f
    unfold insert
    split
    · rename_i hsame
      rw [get?_cons, get?_cons]
      by_cases hkey : key.same (.text name) = true
      · obtain rfl := same_text.1 hkey
        rw [if_pos hsame, if_pos hkey]
      · have hother : ¬ k.same (.text name) = true := fun heq => by
          obtain rfl := same_text.1 heq
          cases key <;> simp_all [Key.same, Key.number?]
        rw [if_neg hother, if_neg hkey, if_neg hother]
    · rename_i hdiffers
      rw [get?_cons, get?_cons, ih]
      by_cases hk : k.same (.text name) = true
      · have hkey : ¬ key.same (.text name) = true := fun heq => by
          obtain rfl := same_text.1 heq
          exact hdiffers hk
        rw [if_pos hk, if_pos hk, if_neg hkey]
      · rw [if_neg hk, if_neg hk]

/-- Of several overriding fields under one name the last one counts. -/
theorem get?_merge (overrides : Object α) (name : String) : ∀ fs : Object α,
    get? (merge fs overrides) name = (get? overrides.reverse name).or (get? fs name) := by
  induction overrides with
  | nil => intro fs; rfl
  | cons f rest ih =>
    obtain ⟨k, v⟩ := f
    intro fs
    have hfirst : merge fs ((k, v) :: rest) = merge (insert fs k v) rest := rfl
    rw [hfirst, ih, get?_insert, List.reverse_cons, get?_append, Option.or_assoc, get?_cons]
    congr 1
    split <;> rfl

/-! ## Fields that are alike -/

/-- The fields as JSON text tells them. -/
def told (fields : Object α) : Object α := fields.map fun f => (f.1, f.2.canonical)

theorem get?_told (fields : Object α) (name : String) :
    get? (told fields) name = (get? fields name).map Value.canonical := by
  induction fields with
  | nil => rfl
  | cons f rest ih =>
    have hcons : told (f :: rest) = (f.1, f.2.canonical) :: told rest := rfl
    rw [hcons, get?_cons, get?_cons, ih]
    split <;> rfl

theorem insert_told (fields : Object α) (key : Key α) (v : Value α) :
    told (insert fields key v) = insert (told fields) key v.canonical := by
  induction fields with
  | nil => rfl
  | cons f rest ih =>
    obtain ⟨k, w⟩ := f
    have hcons : told ((k, w) :: rest) = (k, w.canonical) :: told rest := rfl
    rw [hcons, insert, insert, ← ih]
    split <;> rfl

theorem merge_told (overrides : Object α) : ∀ fields : Object α,
    told (merge fields overrides) = merge (told fields) (told overrides) := by
  induction overrides with
  | nil => intro fields; rfl
  | cons f rest ih =>
    intro fields
    have hfirst : merge fields (f :: rest) = merge (insert fields f.1 f.2) rest := rfl
    rw [hfirst, ih, insert_told]
    rfl

/-- The same names, with values that are alike. -/
def Alike (fs gs : Object α) : Prop := ∀ name, get? (told fs) name = get? (told gs) name

theorem Alike.of_told {fs gs : Object α} (h : told fs = told gs) : Alike fs gs := fun name => by rw [h]

/-- Among fields with text names a name is looked up by its text. -/
theorem get?_eq_lookup {fields : Object α} (h : ∀ f ∈ fields, ∃ name, f.1 = .text name) (name : String) :
    get? fields name = (fields.map fun f => (f.1.shown, f.2)).lookup name := by
  induction fields with
  | nil => rfl
  | cons f rest ih =>
    obtain ⟨k, v⟩ := f
    obtain ⟨⟨n, rfl⟩, hrest⟩ := List.forall_mem_cons.1 h
    rw [get?_cons, ih hrest, List.map_cons, List.lookup_cons]
    by_cases heq : n = name
    · subst heq
      simp [Key.same, Key.shown]
    · simp [Key.same, Key.shown, heq, beq_eq_false_iff_ne.2 (Ne.symm heq)]

/-- Fields under distinct names, in two orders. -/
theorem Alike.of_perm {fs gs : Object α} (hfs : (Value.object fs).Plain) (h : (told fs).Perm (told gs)) :
    Alike fs gs := by
  cases hfs with
  | object hnames hdistinct _ =>
  have htold : ∀ f ∈ told fs, ∃ name, f.1 = .text name := fun f hf => by
    obtain ⟨g, hg, rfl⟩ := List.mem_map.1 hf
    exact hnames g hg
  intro name
  rw [get?_eq_lookup htold, get?_eq_lookup fun f hf => htold f (h.mem_iff.2 hf)]
  refine lookup_perm (h.map _) ?_ name
  rw [told, List.map_map, List.map_map]
  exact hdistinct

/-- Overridden fields are alike where the fields and the overriding ones are. -/
theorem Alike.merge {fs gs overrides overrides' : Object α} (h : Alike fs gs)
    (hover : Alike overrides.reverse overrides'.reverse) : Alike (merge fs overrides) (Object.merge gs overrides') := by
  intro name
  have hfields := h name
  have hoverrides := hover name
  simp only [get?_told] at hfields hoverrides ⊢
  rw [get?_merge, get?_merge, Option.map_or, Option.map_or, hfields, hoverrides]

theorem told_perm {fs gs : Object α} (h : (Value.object fs).Alike (.object gs)) : (told fs).Perm (told gs) := by
  have hsorted : told (fs.mergeSort Json.byName) = told (gs.mergeSort Json.byName) := by
    unfold Value.Alike at h
    rw [Value.canonical_object, Value.canonical_object] at h
    exact Value.object.inj h
  have hperm : ∀ fields : Object α, (told (fields.mergeSort Json.byName)).Perm (told fields) := fun fields =>
    (List.mergeSort_perm fields _).map _
  exact (hperm fs).symm.trans (hsorted ▸ hperm gs)

end Object

/-- Of two values that are alike both are objects, or neither is. -/
theorem Value.Alike.objects {v w : Value α} (h : v.Alike w) :
    (∃ fs gs, v = .object fs ∧ w = .object gs ∧ (Object.told fs).Perm (Object.told gs)) ∨
      (v.fields? = none ∧ w.fields? = none) := by
  rcases h.cases with rfl | ⟨xs, ys, hv, hw, -⟩ | ⟨fs, gs, rfl, rfl⟩
  · cases v
    case object fields => exact .inl ⟨fields, fields, rfl, rfl, .refl _⟩
    all_goals exact .inr ⟨rfl, rfl⟩
  · cases hv <;> cases hw <;> exact .inr ⟨rfl, rfl⟩
  · exact .inl ⟨fs, gs, rfl, rfl, Object.told_perm h⟩

theorem Value.Plain.perm {fs gs : Object α} (h : (Value.object fs).Plain) (hperm : fs.Perm gs) :
    (Value.object gs).Plain := by
  cases h with
  | object hnames hdistinct hvalues =>
    refine .object (fun f hf => hnames f (hperm.mem_iff.2 hf)) ?_ fun f hf => hvalues f (hperm.mem_iff.2 hf)
    exact (hperm.map _).nodup_iff.1 hdistinct

/-- Objects that are alike have the same names, with values that are alike. -/
theorem Value.Alike.fields {fs gs : Object α} (h : (Value.object fs).Alike (.object gs))
    (hfs : (Value.object fs).Plain) : Object.Alike fs gs :=
  .of_perm hfs (Object.told_perm h)

end StrategyLab
