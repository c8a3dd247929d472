/-
The compact JSON text of a value, character by character. A plain value (literals, numbers, texts,
sequences of plain values, and objects of them under distinct names) always has one
(`render_plain`).
-/
import Mathlib.Tactic
import StrategyLab.Json.Printer

namespace StrategyLab

variable {α : Type} [Scalar α]

/-- A value that JSON text can write, all keys of its objects being names. -/
inductive Value.Plain : Value α → Prop
  | null : Plain .null
  | truth (b : Bool) : Plain (.truth b)
  | num (x : Num α) : Plain (.num x)
  | text (s : String) : Plain (.text s)
  | list {items : List (Value α)} (hitems : ∀ v ∈ items, Plain v) : Plain (.list items)
  | tuple {items : List (Value α)} (hitems : ∀ v ∈ items, Plain v) : Plain (.tuple items)
  | object {fields : Object α} (hnames : ∀ f ∈ fields, ∃ name, f.1 = .text name)
      (hdistinct : (fields.map fun f => f.1.shown).Nodup) (hvalues : ∀ f ∈ fields, Plain f.2) : Plain (.object fields)

namespace Json

/-! ## The characters of a value -/

/-- The order in which fields are written. -/
def byName {β : Type} (f g : Key α × β) : Bool := !((keyBefore? g.1 f.1).getD false)

/-- Parts with a comma between any two of them. -/
def separated (parts : List (List Char)) : List Char := List.intercalate [','] parts

mutual
/-- The characters of a value. -/
def written : Value α → List Char
  | .null => ['n', 'u', 'l', 'l']
  | .truth b => if b then ['t', 'r', 'u', 'e'] else ['f', 'a', 'l', 's', 'e']
  | .num x => (numText x).toList
  | .text s => (stringText s).toList
  | .list items | .tuple items => '[' :: (separated (writtenItems items) ++ [']'])
  | .object fields => '\x7b' :: (separated (((writtenFields fields).mergeSort byName).map (·.2)) ++ ['\x7d'])
  | _ => []

/-- The characters of each of several values. -/
def writtenItems : List (Value α) → List (List Char)
  | [] => []
  | v :: rest => written v :: writtenItems rest

/-- The characters of each of several fields. -/
def writtenFields : List (Key α × Value α) → List (Key α × List Char)
  | [] => []
  | (k, v) :: rest => (k, (stringText (keyText k)).toList ++ ':' :: written v) :: writtenFields rest
end

/-- The characters of a field. -/
def writtenField (f : Key α × Value α) : List Char := (stringText (keyText f.1)).toList ++ ':' :: written f.2

theorem writtenItems_eq (items : List (Value α)) : writtenItems items = items.map written := by
  induction items with
  | nil => rfl
  | cons v rest ih => rw [writtenItems, ih, List.map_cons]

theorem writtenFields_eq (fields : List (Key α × Value α)) :
    writtenFields fields = fields.map fun f => (f.1, writtenField f) := by
  induction fields with
  | nil => rfl
  | cons f rest ih =>
    obtain ⟨k, v⟩ := f
    rw [writtenFields, ih, List.map_cons]
    rfl

/-- Sorting by name looks at the names only. -/
theorem mergeSort_byName_map {β γ : Type} (g : Key α × β → γ) (fields : List (Key α × β)) :
    (fields.map fun f => (f.1, g f)).mergeSort byName = (fields.mergeSort byName).map fun f => (f.1, g f) :=
  (List.map_mergeSort (r := byName) (s := byName) (f := fun f => (f.1, g f)) fun _ _ _ _ => rfl).symm

theorem written_object (fields : List (Key α × Value α)) : written (.object fields) =
    '\x7b' :: (separated ((fields.mergeSort byName).map writtenField) ++ ['\x7d']) := by
  rw [written, writtenFields_eq, mergeSort_byName_map, List.map_map]
  rfl

/-! ## The text of a value -/

/-- Text on one line, fields sorted by name. -/
def compact (narrowAsReal : Bool) : Style := ⟨false, true, narrowAsReal⟩

theorem renderItems_compact (narrowAsReal : Bool) (level : Nat) {items : List (Value α)}
    (h : ∀ v ∈ items, render (compact narrowAsReal) level v = .ok (String.ofList (written v))) :
    renderItems (compact narrowAsReal) level items = .ok (String.ofList (separated (items.map written))) := by
  induction items with
  | nil => rfl
  | cons v rest ih =>
    have hv := h v List.mem_cons_self
    have hrest := ih fun w hw => h w (List.mem_cons_of_mem v hw)
    cases rest with
    | nil => rw [renderItems, hv, List.map_singleton, separated, List.intercalate_singleton]
    | cons w rest =>
      rw [renderItems, hv, hrest]
      · refine congrArg Except.ok (String.toList_inj.1 ?_)
        simp [separated, List.intercalate_cons_cons, lineBreak, compact]
      · simp

theorem renderFields_compact (narrowAsReal : Bool) (level : Nat) {fields : List (Key α × Value α)}
    (h : ∀ f ∈ fields, render (compact narrowAsReal) level f.2 = .ok (String.ofList (written f.2))) :
    renderFields (compact narrowAsReal) level fields =
      .ok (fields.map fun f => (f.1, String.ofList (writtenField f))) := by
  induction fields with
  | nil => rfl
  | cons f rest ih =>
    obtain ⟨k, v⟩ := f
    have hv := h (k, v) List.mem_cons_self
    have hfield : stringText (keyText k) ++ colonText (compact narrowAsReal) ++ String.ofList (written v) =
        String.ofList (writtenField (k, v)) := by
      refine String.toList_inj.1 ?_
      simp [writtenField, colonText, compact]
    rw [renderFields, hv, ih fun g hg => h g (List.mem_cons_of_mem _ hg), List.map_cons, ← hfield]
    rfl

theorem areComparable_names {β : Type} {fields : List (Key α × β)} (h : ∀ f ∈ fields, ∃ name, f.1 = .text name) :
    areComparable fields = true := by
  cases fields with
  | nil => rfl
  | cons f rest =>
    obtain ⟨k, v⟩ := f
    obtain ⟨name, rfl⟩ := h (k, v) List.mem_cons_self
    refine List.all_eq_true.2 fun g hg => ?_
    obtain ⟨k', v'⟩ := g
    obtain ⟨name', rfl⟩ := h (k', v') (List.mem_cons_of_mem _ hg)
    rfl

theorem sortFields_names {β γ : Type} (g : Key α × β → γ) {fields : List (Key α × β)}
    (h : ∀ f ∈ fields, ∃ name, f.1 = .text name) :
    sortFields (fields.map fun f => (f.1, g f)) = .ok ((fields.mergeSort byName).map fun f => (f.1, g f)) := by
  have hnames : ∀ f' ∈ fields.map (fun f => (f.1, g f)), ∃ name, f'.1 = .text name := by
    intro f' hf'
    obtain ⟨f, hf, rfl⟩ := List.mem_map.1 hf'
    exact h f hf
  rw [← mergeSort_byName_map]
  exact if_pos (areComparable_names hnames)

/-- Every plain value has a text. -/
theorem render_plain (narrowAsReal : Bool) {v : Value α} (hv : v.Plain) :
    ∀ level, render (compact narrowAsReal) level v = .ok (String.ofList (written v)) := by
  induction hv with
  | null => intro level; rfl
  | truth b => intro level; cases b <;> rfl
  | num x => intro level; rw [render, written, String.ofList_toList]
  | text s => intro level; rw [render, written, String.ofList_toList]
  | list _ ih | tuple _ ih =>
    rename_i items _
    intro level
    cases items with
    | nil => rfl
    | cons v rest =>
      rw [render, renderItems_compact narrowAsReal (level + 1) fun w hw => ih w hw (level + 1), written, writtenItems_eq]
      · refine congrArg Except.ok (String.toList_inj.1 ?_)
        simp [lineBreak, compact]
      · simp
  | @object fields hnames _ _ ih =>
    intro level
    cases fields with
    | nil => rw [written_object, List.mergeSort_nil]; rfl
    | cons f rest =>
      rw [render, renderFields_compact narrowAsReal (level + 1) fun g hg => ih g hg (level + 1), written_object]
      · show (sortFields _ >>= fun ordered => _) = _
        rw [sortFields_names (fun f => String.ofList (writtenField f)) hnames]
        refine congrArg Except.ok (String.toList_inj.1 ?_)
        simp [lineBreak, compact, separated, Function.comp_def]
      · simp

end Json

end StrategyLab
