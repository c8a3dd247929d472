/-
Records, the values that files hold: objects with distinct texts as keys, lists, texts, whole numbers,
finite reals, truth values and nothing. The record of a value is one (`toRecord_isRecord`), and a record
is its own record (`IsRecord.toRecord_eq`).
-/
import Mathlib.Tactic
import StrategyLab.Store.RunDirectory

namespace StrategyLab

variable {α : Type} [Scalar α]

/-! ## Fields under names -/

namespace Object

/-- All keys are texts. -/
def Named (fields : Object α) : Prop := ∀ f ∈ fields, ∃ name, f.1 = .text name

/-- No name twice. -/
def Distinct (fields : Object α) : Prop := (fields.map fun f => f.1.shown).Nodup

omit [Scalar α] in
theorem named_cons {name : String} {v : Value α} {rest : Object α} (h : Named rest) : Named ((.text name, v) :: rest) :=
  List.forall_mem_cons.2 ⟨⟨name, rfl⟩, h⟩

@[simp] theorem same_texts (s t : String) : Key.same (α := α) (.text s) (.text t) = (s == t) := rfl

/-- What setting a field under a name leaves. -/
theorem insert_named {name : String} {v : Value α} : ∀ {fields : Object α}, Named fields → Distinct fields →
    Named (insert fields (.text name) v) ∧ Distinct (insert fields (.text name) v) ∧
      (∀ f ∈ insert fields (.text name) v, f ∈ fields ∨ f.2 = v) ∧
      ∀ f ∈ insert fields (.text name) v, (∃ g ∈ fields, g.1.shown = f.1.shown) ∨ f.1.shown = name
  | [], _, _ => by simp [insert, Named, Distinct, Key.shown]
  | (k, w) :: rest, hnamed, hdistinct => by
    obtain ⟨⟨key, rfl⟩, hrest⟩ := List.forall_mem_cons.1 hnamed
    obtain ⟨hfresh, hnodup⟩ := List.nodup_cons.1 hdistinct
    rw [insert, same_texts]
    split
    · rename_i hsame
      obtain rfl : key = name := beq_iff_eq.1 hsame
      refine ⟨named_cons hrest, hdistinct, fun f hf => ?_, fun f hf => ?_⟩
      · rcases List.mem_cons.1 hf with rfl | hf
        · exact .inr rfl
        · exact .inl (List.mem_cons_of_mem _ hf)
      · rcases List.mem_cons.1 hf with rfl | hf
        · exact .inr rfl
        · exact .inl ⟨f, List.mem_cons_of_mem _ hf, rfl⟩
    · rename_i hother
      obtain ⟨hnamed', hdistinct', hvalues, hkeys⟩ := @insert_named name v rest hrest hnodup
      refine ⟨named_cons hnamed', List.nodup_cons.2 ⟨fun hmem => ?_, hdistinct'⟩, fun f hf => ?_, fun f hf => ?_⟩
      · obtain ⟨f, hf, hshown⟩ := List.mem_map.1 hmem
        rcases hkeys f hf with ⟨g, hg, hsame⟩ | hsame
        · exact hfresh (List.mem_map.2 ⟨g, hg, hsame.trans hshown⟩)
        · exact hother (beq_iff_eq.2 (hshown.symm.trans hsame))
      · rcases List.mem_cons.1 hf with rfl | hf
        · exact .inl List.mem_cons_self
        · exact (hvalues f hf).imp_left (List.mem_cons_of_mem _)
      · rcases List.mem_cons.1 hf with rfl | hf
        · exact .inl ⟨_, List.mem_cons_self, rfl⟩
        · exact (hkeys f hf).imp_left fun ⟨g, hg, h⟩ => ⟨g, List.mem_cons_of_mem _ hg, h⟩

/-- Fields set one after the other have distinct names, and their values are among those that were set. -/
theorem merge_named {P : Value α → Prop} : ∀ {pairs fields : Object α}, Named pairs → (∀ f ∈ pairs, P f.2) →
    Named fields → Distinct fields → (∀ f ∈ fields, P f.2) →
      Named (merge fields pairs) ∧ Distinct (merge fields pairs) ∧ ∀ f ∈ merge fields pairs, P f.2
  | [], _, _, _, hnamed, hdistinct, hvalues => ⟨hnamed, hdistinct, hvalues⟩
  | (k, v) :: pairs, fields, hpairs, hP, hnamed, hdistinct, hvalues => by
    obtain ⟨⟨name, rfl⟩, hothers⟩ := List.forall_mem_cons.1 hpairs
    obtain ⟨hv, hrest⟩ := List.forall_mem_cons.1 hP
    obtain ⟨hnamed', hdistinct', hfrom, -⟩ := insert_named hnamed hdistinct
    have hvalues' : ∀ f ∈ insert fields (.text name) v, P f.2 := fun f hf =>
      (hfrom f hf).elim (hvalues f) fun h => h ▸ hv
    show Named (merge (insert fields (.text name) v) pairs) ∧ Distinct (merge (insert fields (.text name) v) pairs) ∧
      ∀ f ∈ merge (insert fields (.text name) v) pairs, P f.2
    exact merge_named hothers hrest hnamed' hdistinct' hvalues'

/-- A field under a new name comes last. -/
theorem insert_new {name : String} {v : Value α} : ∀ {fields : Object α}, Named fields →
    (∀ f ∈ fields, f.1.shown ≠ name) → insert fields (.text name) v = fields ++ [(.text name, v)]
  | [], _, _ => rfl
  | (k, w) :: rest, hnamed, hfresh => by
    obtain ⟨⟨key, rfl⟩, hrest⟩ := List.forall_mem_cons.1 hnamed
    obtain ⟨hne, hfresh⟩ := List.forall_mem_cons.1 hfresh
    have hother : ¬ (key == name) = true := fun h => hne (beq_iff_eq.1 h)
    rw [insert, same_texts, if_neg hother, insert_new hrest hfresh, List.cons_append]

theorem merge_distinct : ∀ {pairs fields : Object α}, Named (fields ++ pairs) → Distinct (fields ++ pairs) →
    merge fields pairs = fields ++ pairs
  | [], fields, _, _ => (List.append_nil fields).symm
  | (k, v) :: pairs, fields, hnamed, hdistinct => by
    have hfields : Named fields := fun f hf => hnamed f (List.mem_append_left _ hf)
    obtain ⟨name, rfl⟩ := hnamed (k, v) (List.mem_append_right _ List.mem_cons_self)
    have hfresh : ∀ f ∈ fields, f.1.shown ≠ name := by
      intro f hf heq
      unfold Distinct at hdistinct
      rw [List.map_append, List.nodup_append] at hdistinct
      exact hdistinct.2.2 _ (List.mem_map.2 ⟨f, hf, rfl⟩) name (List.mem_map.2 ⟨_, List.mem_cons_self, rfl⟩) heq
    rw [List.append_cons] at hnamed hdistinct
    show merge (insert fields (.text name) v) pairs = _
    rw [insert_new hfields hfresh, merge_distinct hnamed hdistinct, ← List.append_cons]

/-- Fields under distinct names are the fields of their pairs. -/
theorem ofPairs_distinct {pairs : Object α} (hnamed : Named pairs) (hdistinct : Distinct pairs) : ofPairs pairs = pairs :=
  @merge_distinct _ _ pairs [] hnamed hdistinct

end Object

/-! ## Records -/

namespace Value

/-- The values that files hold. -/
inductive IsRecord : Value α → Prop
  | null : IsRecord .null
  | truth (b : Bool) : IsRecord (.truth b)
  | whole (n : Int) : IsRecord (.num (.whole n))
  | real {x : α} (hfinite : Scalar.isFinite x = true) : IsRecord (.num (.real x))
  | text (s : String) : IsRecord (.text s)
  | list {items : List (Value α)} (hitems : ∀ v ∈ items, IsRecord v) : IsRecord (.list items)
  | object {fields : Object α} (hnamed : Object.Named fields) (hdistinct : Object.Distinct fields)
      (hvalues : ∀ f ∈ fields, IsRecord f.2) : IsRecord (.object fields)

theorem toRecordItems_eq (items : List (Value α)) : toRecordItems items = items.map toRecord := by
  induction items with
  | nil => rfl
  | cons v rest ih => rw [toRecordItems, ih, List.map_cons]

theorem toRecordFields_eq (fields : List (Key α × Value α)) :
    toRecordFields fields = fields.map fun f => (f.1, f.2.toRecord) := by
  induction fields with
  | nil => rfl
  | cons f rest ih => rw [toRecordFields, ih, List.map_cons]

theorem finiteOrWord_isRecord (x : α) : (finiteOrWord x).IsRecord := by
  unfold finiteOrWord
  split
  · rename_i h
    exact .real h
  · exact .text _

/-- Fields whose values are records, under names. -/
theorem renamed_isRecord {fields : Object α} (h : ∀ f ∈ fields, f.2.IsRecord) : (object (Object.renamed fields)).IsRecord := by
  have hnamed : Object.Named (fields.map fun f => ((.text f.1.shown : Key α), f.2)) := by
    intro f hf
    obtain ⟨g, -, rfl⟩ := List.mem_map.1 hf
    exact ⟨g.1.shown, rfl⟩
  have hvalues : ∀ f ∈ fields.map fun f => ((.text f.1.shown : Key α), f.2), f.2.IsRecord := by
    intro f hf
    obtain ⟨g, hg, rfl⟩ := List.mem_map.1 hf
    exact h g hg
  have hnil : Object.Named ([] : Object α) ∧ Object.Distinct ([] : Object α) := ⟨List.forall_mem_nil _, List.nodup_nil⟩
  obtain ⟨hnamed', hdistinct, hrecords⟩ := Object.merge_named (P := IsRecord) hnamed hvalues hnil.1 hnil.2 (List.forall_mem_nil _)
  exact .object hnamed' hdistinct hrecords

mutual
/-- The record of a value is a record. -/
theorem toRecord_isRecord : ∀ v : Value α, v.toRecord.IsRecord
  | .null => .null
  | .truth b => .truth b
  | .num (.whole n) => .whole n
  | .num (.real x) => finiteOrWord_isRecord x
  | .text s => .text s
  | .list items | .tuple items | .array items => .list (toRecordItems_isRecord items)
  | .object fields | .entity fields => renamed_isRecord (toRecordFields_isRecord fields)
  | .instant .missing _ | .instant (.known _) none | .instant (.known _) (some _) => .text _
  | .narrow x => finiteOrWord_isRecord x.value
  | .narrowTruth _ | .path _ => .text _

theorem toRecordItems_isRecord : ∀ items : List (Value α), ∀ v ∈ toRecordItems items, v.IsRecord
  | [] => List.forall_mem_nil _
  | v :: rest => List.forall_mem_cons.2 ⟨toRecord_isRecord v, toRecordItems_isRecord rest⟩

theorem toRecordFields_isRecord : ∀ fields : List (Key α × Value α), ∀ f ∈ toRecordFields fields, f.2.IsRecord
  | [] => List.forall_mem_nil _
  | (_, v) :: rest => List.forall_mem_cons.2 ⟨toRecord_isRecord v, toRecordFields_isRecord rest⟩
end

/-- A record is its own record. -/
theorem IsRecord.toRecord_eq {v : Value α} (h : v.IsRecord) : v.toRecord = v := by
  induction h with
  | null => rfl
  | truth b => rfl
  | whole n => rfl
  | @real x hfinite => exact if_pos hfinite
  | text s => rfl
  | @list items hitems ih =>
    rw [toRecord, toRecordItems_eq, List.map_congr_left ih, List.map_id']
  | @object fields hnamed hdistinct hvalues ih =>
    have hsame : (toRecordFields fields).map (fun f => ((.text f.1.shown : Key α), f.2)) = fields := by
      rw [toRecordFields_eq, List.map_map]
      refine (List.map_congr_left fun f hf => ?_).trans (List.map_id' fields)
      obtain ⟨name, hname⟩ := hnamed f hf
      show ((.text f.1.shown : Key α), f.2.toRecord) = f
      rw [ih f hf, hname]
      exact Prod.ext hname.symm rfl
    show Value.object (Object.ofPairs ((toRecordFields fields).map fun f => ((.text f.1.shown : Key α), f.2))) = _
    rw [hsame, Object.ofPairs_distinct hnamed hdistinct]

/-- Taking the record twice is taking it once. -/
theorem toRecord_toRecord (v : Value α) : v.toRecord.toRecord = v.toRecord := (toRecord_isRecord v).toRecord_eq

end Value

end StrategyLab
