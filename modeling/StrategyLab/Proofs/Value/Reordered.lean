/-
JSON values up to the order of fields. Where the texts of scalars tell them apart, two JSON values have
one compact text exactly when they are equal up to that order at every depth (`written_eq_iff`); the
relation itself speaks of no sorting.
-/
import StrategyLab.Proofs.Value.Alike

namespace StrategyLab

variable {α : Type} [Scalar α]

namespace Value

/-- A value of JSON: objects under distinct names, lists, and no fixed sequences. -/
inductive IsJson : Value α → Prop
  | null : IsJson .null
  | truth (b : Bool) : IsJson (.truth b)
  | num (x : Num α) : IsJson (.num x)
  | text (s : String) : IsJson (.text s)
  | list {items : List (Value α)} (hitems : ∀ v ∈ items, IsJson v) : IsJson (.list items)
  | object {fields : Object α} (hnames : ∀ f ∈ fields, ∃ name, f.1 = .text name)
      (hdistinct : (fields.map fun f => f.1.shown).Nodup) (hvalues : ∀ f ∈ fields, IsJson f.2) : IsJson (.object fields)

/-- Equal up to the order of fields at every depth. -/
inductive Reordered : Value α → Value α → Prop
  | null : Reordered .null .null
  | truth (b : Bool) : Reordered (.truth b) (.truth b)
  | num (x : Num α) : Reordered (.num x) (.num x)
  | text (s : String) : Reordered (.text s) (.text s)
  | list {xs ys : List (Value α)} (hlength : xs.length = ys.length)
      (hitems : ∀ v w, (v, w) ∈ xs.zip ys → Reordered v w) : Reordered (.list xs) (.list ys)
  | object {fs gs : Object α} (hkeys : (fs.map (·.1)).Perm (gs.map (·.1)))
      (hvalues : ∀ k v w, (k, v) ∈ fs → (k, w) ∈ gs → Reordered v w) : Reordered (.object fs) (.object gs)

theorem IsJson.plain {v : Value α} (h : v.IsJson) : v.Plain := by
  induction h with
  | null => exact .null
  | truth b => exact .truth b
  | num x => exact .num x
  | text s => exact .text s
  | list _ ih => exact .list ih
  | object hnames hdistinct _ ih => exact .object hnames hdistinct ih

omit [Scalar α] in
theorem map_eq_map_iff_zip {β : Type} {g : Value α → β} {xs ys : List (Value α)} : xs.map g = ys.map g ↔
    xs.length = ys.length ∧ ∀ v w, (v, w) ∈ xs.zip ys → g v = g w := by
  rw [← List.forall₂_eq_eq_eq, List.forall₂_map_left_iff, List.forall₂_map_right_iff, List.forall₂_iff_zip]

end Value

/-! ## Fields under distinct names -/

namespace Object

/-- Under distinct names no two values share a key. -/
theorem value_unique {fields : Object α} (hdistinct : (fields.map fun f => f.1.shown).Nodup) {k : Key α} {v w : Value α}
    (hv : (k, v) ∈ fields) (hw : (k, w) ∈ fields) : v = w :=
  (Prod.mk.inj (List.inj_on_of_nodup_map hdistinct hv hw rfl)).2

/-- The name of one pair does not come after that of another. Keys that are no names have no such order. -/
def notAfter {β : Type} (p q : String × β) : Bool := !decide (q.1 < p.1)

theorem notAfter_iff {β : Type} {p q : String × β} : notAfter p q = true ↔ p.1 ≤ q.1 := by
  unfold notAfter
  rw [Bool.not_eq_true', decide_eq_false_iff_not, not_lt]

/-- Named pairs in two orders sort into one. -/
theorem mergeSort_notAfter_perm {β : Type} {ps qs : List (String × β)} (hdistinct : (ps.map Prod.fst).Nodup)
    (hperm : ps.Perm qs) : ps.mergeSort notAfter = qs.mergeSort notAfter := by
  have htrans : ∀ p q r : String × β, notAfter p q = true → notAfter q r = true → notAfter p r = true :=
    fun p q r hpq hqr => notAfter_iff.2 ((notAfter_iff.1 hpq).trans (notAfter_iff.1 hqr))
  have htotal : ∀ p q : String × β, (notAfter p q || notAfter q p) = true := by
    intro p q
    rw [Bool.or_eq_true, notAfter_iff, notAfter_iff]
    exact le_total p.1 q.1
  have hsame : (ps.mergeSort notAfter).Perm (qs.mergeSort notAfter) :=
    (List.mergeSort_perm _ _).trans (hperm.trans (List.mergeSort_perm _ _).symm)
  refine List.Perm.eq_of_pairwise ?_ (List.pairwise_mergeSort htrans htotal _)
    (List.pairwise_mergeSort htrans htotal _) hsame
  -- two pairs that come before each other have one name, so they are one pair
  intro p q hp hq hpq hqp
  exact List.inj_on_of_nodup_map hdistinct (List.mem_mergeSort.1 hp) (hperm.mem_iff.2 (List.mem_mergeSort.1 hq))
    (le_antisymm (notAfter_iff.1 hpq) (notAfter_iff.1 hqp))

/-- The pairs of fields under names, as they are sorted. -/
theorem mergeSort_byName_named {β : Type} {fields : List (Key α × β)} (hnames : ∀ f ∈ fields, ∃ name, f.1 = .text name) :
    fields.mergeSort Json.byName =
      ((fields.map fun f => (f.1.shown, f.2)).mergeSort notAfter).map fun p => (.text p.1, p.2) := by
  have hnamed : (fields.map fun f => (f.1.shown, f.2)).map (fun p => ((.text p.1 : Key α), p.2)) = fields := by
    rw [List.map_map]
    refine (List.map_congr_left fun f hf => ?_).trans (List.map_id' fields)
    obtain ⟨k, v⟩ := f
    obtain ⟨name, rfl⟩ := hnames (k, v) hf
    rfl
  have hsort := List.map_mergeSort (r := notAfter) (s := Json.byName) (f := fun p : String × β => ((.text p.1 : Key α), p.2))
    (l := fields.map fun f => (f.1.shown, f.2)) fun _ _ _ _ => rfl
  rw [hsort, hnamed]

/-- Fields in two orders sort into one. -/
theorem mergeSort_byName_perm {β : Type} {fs gs : List (Key α × β)} (hnames : ∀ f ∈ fs, ∃ name, f.1 = .text name)
    (hdistinct : (fs.map fun f => f.1.shown).Nodup) (hperm : fs.Perm gs) :
    fs.mergeSort Json.byName = gs.mergeSort Json.byName := by
  have hnames' : ∀ f ∈ gs, ∃ name, f.1 = .text name := fun f hf => hnames f (hperm.mem_iff.2 hf)
  have hdistinct' : ((fs.map fun f => (f.1.shown, f.2)).map Prod.fst).Nodup := by
    rw [List.map_map]
    exact hdistinct
  rw [mergeSort_byName_named hnames, mergeSort_byName_named hnames',
    mergeSort_notAfter_perm hdistinct' (hperm.map fun f => (f.1.shown, f.2))]

/-- Fields with the same keys, and values that look the same under each, look the same up to their order. -/
theorem perm_of_values {β : Type} (g : Value α → β) {fs gs : Object α} (hfs : (fs.map fun f => f.1.shown).Nodup)
    (hgs : (gs.map fun f => f.1.shown).Nodup) (hkeys : (fs.map (·.1)).Perm (gs.map (·.1)))
    (hvalues : ∀ k v w, (k, v) ∈ fs → (k, w) ∈ gs → g v = g w) :
    (fs.map fun f => (f.1, g f.2)).Perm (gs.map fun f => (f.1, g f.2)) := by
  have hnodup : ∀ {fields : Object α}, (fields.map fun f => f.1.shown).Nodup →
      (fields.map fun f => (f.1, g f.2)).Nodup := by
    intro fields h
    refine List.Nodup.of_map (fun f => f.1.shown) ?_
    rw [List.map_map]
    exact h
  have hother : ∀ {fs gs : Object α} {k v}, (fs.map (·.1)).Perm (gs.map (·.1)) → (k, v) ∈ fs → ∃ w, (k, w) ∈ gs := by
    intro fs gs k v h hv
    obtain ⟨⟨k', w⟩, hw, rfl⟩ := List.mem_map.1 (h.mem_iff.1 (List.mem_map.2 ⟨(k, v), hv, rfl⟩))
    exact ⟨w, hw⟩
  refine (List.perm_ext_iff_of_nodup (hnodup hfs) (hnodup hgs)).2 fun p => ?_
  constructor
  · intro hp
    obtain ⟨⟨k, v⟩, hv, rfl⟩ := List.mem_map.1 hp
    obtain ⟨w, hw⟩ := hother hkeys hv
    exact List.mem_map.2 ⟨(k, w), hw, by rw [hvalues k v w hv hw]⟩
  · intro hp
    obtain ⟨⟨k, w⟩, hw, rfl⟩ := List.mem_map.1 hp
    obtain ⟨v, hv⟩ := hother hkeys.symm hw
    exact List.mem_map.2 ⟨(k, v), hv, by rw [hvalues k v w hv hw]⟩

end Object

/-! ## One text -/

namespace Value

/-- The order of fields does not show in the text. -/
theorem Reordered.written_eq {v w : Value α} (h : v.Reordered w) :
    v.IsJson → w.IsJson → Json.written v = Json.written w := by
  induction h with
  | null | truth | num | text => intros; rfl
  | @list xs ys hlength _ ih =>
    rintro (_ | _ | _ | _ | hxs) (_ | _ | _ | _ | hys)
    have hitems : xs.map Json.written = ys.map Json.written := by
      refine map_eq_map_iff_zip.2 ⟨hlength, fun v w h => ?_⟩
      obtain ⟨hv, hw⟩ := List.of_mem_zip h
      exact ih v w h (hxs v hv) (hys w hw)
    rw [Json.written, Json.written, Json.writtenItems_eq, Json.writtenItems_eq, hitems]
  | @object fs gs hkeys _ ih =>
    rintro (_ | _ | _ | _ | _ | ⟨hnames, hfs, hvalues⟩) (_ | _ | _ | _ | _ | ⟨-, hgs, hvalues'⟩)
    -- fields are sorted before they are written, each with a text that has no order by induction
    have hperm := Object.perm_of_values Json.written hfs hgs hkeys fun k v w hv hw =>
      ih k v w hv hw (hvalues (k, v) hv) (hvalues' (k, w) hw)
    have hsorted := Object.mergeSort_byName_perm ?_ ?_ hperm
    · rw [Json.mergeSort_byName_map, Json.mergeSort_byName_map] at hsorted
      have hfields := congrArg (List.map fun p => (Json.stringText (Json.keyText p.1)).toList ++ ':' :: p.2) hsorted
      rw [List.map_map, List.map_map] at hfields
      rw [Json.written_object, Json.written_object]
      exact congrArg (fun parts => '\x7b' :: (Json.separated parts ++ ['\x7d'])) hfields
    · intro f hf
      obtain ⟨g, hg, rfl⟩ := List.mem_map.1 hf
      exact hnames g hg
    · rw [List.map_map]
      exact hfs

/-- Canonical forms tell JSON values up to the order of fields. -/
theorem IsJson.reordered {v : Value α} (hv : v.IsJson) :
    ∀ {w : Value α}, w.IsJson → v.Alike w → v.Reordered w := by
  induction hv with
  | null | truth | num | text =>
    rintro w (_ | _ | _ | _ | _ | _) h
    all_goals first
      | (cases h; constructor)
      | simp only [Alike, canonical, reduceCtorEq] at h
  | @list xs _ ih =>
    rintro w (_ | _ | _ | _ | hys | _) h
    case list ys =>
      rw [Alike, canonical_list, canonical_list] at h
      obtain ⟨hlength, hitems⟩ := map_eq_map_iff_zip.1 (Value.list.inj h)
      refine .list hlength fun v w hvw => ?_
      obtain ⟨hv, hw⟩ := List.of_mem_zip hvw
      exact ih v hv (hys w hw) (hitems v w hvw)
    all_goals simp only [Alike, canonical, reduceCtorEq] at h
  | @object fs hnames hdistinct _ ih =>
    -- the canonical form keeps the keys, and they are distinct, so that a key has one value on either side
    rintro w (_ | _ | _ | _ | _ | ⟨-, hdistinct', hvalues'⟩) h
    case object gs =>
      have hperm := Object.told_perm h
      refine .object ?_ fun k v w hv hw => ?_
      · have hkeys := hperm.map Prod.fst
        rwa [Object.told, Object.told, List.map_map, List.map_map] at hkeys
      · have htold : (k, v.canonical) ∈ Object.told gs := hperm.mem_iff.1 (List.mem_map.2 ⟨(k, v), hv, rfl⟩)
        obtain ⟨⟨k', w'⟩, hw', heq⟩ := List.mem_map.1 htold
        obtain ⟨rfl, hsame⟩ := Prod.mk.inj heq
        obtain rfl := Object.value_unique hdistinct' hw hw'
        exact ih (k', v) hv (hvalues' (k', w) hw) hsame.symm
    all_goals simp only [Alike, canonical, reduceCtorEq] at h

/-- The text of a JSON value tells the value up to the order of fields, and tells nothing more. -/
theorem IsJson.written_eq_iff (hα : Json.Legible α) {v w : Value α} (hv : v.IsJson) (hw : w.IsJson) :
    Json.written v = Json.written w ↔ v.Reordered w := by
  constructor
  · intro h
    exact hv.reordered hw (Json.written_canonical hα hv.plain hw.plain h)
  · intro h
    exact h.written_eq hv hw

/-! ## Lists and records -/

omit [Scalar α] in
theorem reordered_list_iff {xs ys : List (Value α)} :
    (Value.list xs).Reordered (.list ys) ↔ List.Forall₂ Reordered xs ys := by
  rw [List.forall₂_iff_zip]
  constructor
  · rintro (_ | _ | _ | _ | ⟨hlength, hitems⟩)
    exact ⟨hlength, fun h => hitems _ _ h⟩
  · rintro ⟨hlength, hitems⟩
    exact .list hlength fun v w h => hitems h

omit [Scalar α] in
theorem reordered_text_iff {s t : String} : (Value.text (α := α) s).Reordered (.text t) ↔ s = t := by
  constructor
  · rintro (_ | _)
    rfl
  · rintro rfl
    exact .text s

omit [Scalar α] in
theorem reordered_num_iff {x y : Num α} : (Value.num x).Reordered (.num y) ↔ x = y := by
  constructor
  · rintro (_ | _)
    rfl
  · rintro rfl
    exact .num x

omit [Scalar α] in
/-- The order of the fields of the two objects does not matter. -/
theorem Reordered.of_perm {fs fs' gs gs' : Object α} (hfs : fs.Perm fs') (hgs : gs.Perm gs')
    (h : (Value.object fs).Reordered (.object gs)) : (Value.object fs').Reordered (.object gs') := by
  rcases h with _ | _ | _ | _ | _ | ⟨hkeys, hvalues⟩
  refine .object ((hfs.map _).symm.trans (hkeys.trans (hgs.map _))) fun k v w hv hw => ?_
  exact hvalues k v w (hfs.mem_iff.2 hv) (hgs.mem_iff.2 hw)

theorem Reordered.field {fs gs : Object α} (h : (Value.object fs).Reordered (.object gs)) (name : String) {v w : Value α}
    (hv : fs.get? name = some v) (hw : gs.get? name = some w) : v.Reordered w := by
  rcases h with _ | _ | _ | _ | _ | ⟨-, hvalues⟩
  exact hvalues (.text name) v w (Object.mem_of_get? hv) (Object.mem_of_get? hw)

/-- Fields of two records side by side. -/
def Beside (f g : String × Value α) : Prop := f.1 = g.1 ∧ f.2.Reordered g.2

omit [Scalar α] in
theorem names_beside {fs gs : List (String × Value α)} (h : List.Forall₂ Beside fs gs) : fs.map (·.1) = gs.map (·.1) :=
  map_eq_of_forall₂ h fun _ _ hfg => hfg.1

omit [Scalar α] in
theorem values_beside {fs gs : List (String × Value α)} (hdistinct : (fs.map (·.1)).Nodup)
    (h : List.Forall₂ Beside fs gs) {name : String} {v w : Value α} (hv : (name, v) ∈ fs) (hw : (name, w) ∈ gs) :
    v.Reordered w := by
  induction h with
  | nil => cases hv
  | @cons f g fs gs hfg hrest ih =>
    rw [List.map_cons, List.nodup_cons] at hdistinct
    rcases List.mem_cons.1 hv with rfl | hv <;> rcases List.mem_cons.1 hw with rfl | hw
    · exact hfg.2
    · exact absurd (names_beside hrest ▸ List.mem_map.2 ⟨_, hw, rfl⟩) hdistinct.1
    · exact absurd (List.mem_map.2 ⟨_, hv, hfg.1.symm⟩) hdistinct.1
    · exact ih hdistinct.2 hv hw

omit [Scalar α] in
/-- Records of the same names, with values in the same order. -/
theorem Reordered.record {fs gs : List (String × Value α)} (hdistinct : (fs.map (·.1)).Nodup)
    (h : List.Forall₂ Beside fs gs) : (record fs).Reordered (record gs) := by
  refine .object ?_ fun k v w hv hw => ?_
  · rw [List.map_map, List.map_map]
    have hnames := congrArg (List.map (Key.text (α := α))) (names_beside h)
    rw [List.map_map, List.map_map] at hnames
    exact .of_eq hnames
  · obtain ⟨⟨s, v⟩, hmem, heq⟩ := List.mem_map.1 hv
    obtain ⟨⟨t, w⟩, hmem', heq'⟩ := List.mem_map.1 hw
    obtain ⟨rfl, rfl⟩ := Prod.mk.inj heq
    obtain ⟨hname, rfl⟩ := Prod.mk.inj heq'
    obtain rfl := Key.text.inj hname
    exact values_beside hdistinct h hmem hmem'

end Value

end StrategyLab
