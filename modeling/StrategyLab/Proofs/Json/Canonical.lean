/-
The compact text of a plain value tells the value up to the order of fields, and up to fixed sequences
and lists (`written_canonical`). Numbers take part only with their texts, which have to tell them
apart and must not look like anything else (`Legible`).
-/
import Mathlib
import StrategyLab.Proofs.Agree
import StrategyLab.Proofs.Json.Strings
import StrategyLab.Proofs.Json.Written

namespace StrategyLab

variable {α : Type} [Scalar α]

namespace Value

mutual
/-- The value with all fields sorted by name, and lists in place of fixed sequences. -/
def canonical : Value α → Value α
  | .list items | .tuple items => .list (canonicalItems items)
  | .object fields => .object ((canonicalFields fields).mergeSort Json.byName)
  | v => v

def canonicalItems : List (Value α) → List (Value α)
  | [] => []
  | v :: rest => canonical v :: canonicalItems rest

def canonicalFields : List (Key α × Value α) → List (Key α × Value α)
  | [] => []
  | (k, v) :: rest => (k, canonical v) :: canonicalFields rest
end

theorem canonicalItems_eq (items : List (Value α)) : canonicalItems items = items.map canonical := by
  induction items with
  | nil => rfl
  | cons v rest ih => rw [canonicalItems, ih, List.map_cons]

theorem canonicalFields_eq (fields : List (Key α × Value α)) :
    canonicalFields fields = fields.map fun f => (f.1, f.2.canonical) := by
  induction fields with
  | nil => rfl
  | cons f rest ih => rw [canonicalFields, ih, List.map_cons]

theorem canonical_list (items : List (Value α)) : (Value.list items).canonical = .list (items.map canonical) := by
  rw [canonical, canonicalItems_eq]

theorem canonical_tuple (items : List (Value α)) : (Value.tuple items).canonical = .list (items.map canonical) := by
  rw [canonical, canonicalItems_eq]

/-- Sequences, fixed or not. -/
inductive Lists : Value α → List (Value α) → Prop
  | list (items : List (Value α)) : Lists (.list items) items
  | tuple (items : List (Value α)) : Lists (.tuple items) items

theorem Lists.canonical {v : Value α} {items : List (Value α)} (h : Lists v items) :
    v.canonical = .list (items.map Value.canonical) := by
  cases h
  · exact canonical_list _
  · exact canonical_tuple _

theorem canonical_object (fields : List (Key α × Value α)) : (Value.object fields).canonical =
    .object ((fields.mergeSort Json.byName).map fun f => (f.1, f.2.canonical)) := by
  rw [canonical, canonicalFields_eq, Json.mergeSort_byName_map]

end Value

namespace Json

/-! ## Bare words -/

/-- The characters that begin or end something other than a bare word. -/
def marks : List Char := ['"', ',', '[', ']', '\x7b', '\x7d']

/-- Texts of scalars that tell them apart, and look like nothing else. -/
structure Legible (α : Type) [Scalar α] : Prop where
  injective : ∀ x y : α, numText (.real x) = numText (.real y) → x = y
  nonempty : ∀ x : α, numText (.real x) ≠ ""
  unmarked : ∀ x : α, ∀ c ∈ (numText (.real x)).toList, c ∉ marks
  apart : ∀ x : α, numText (.real x) ∉ ["null", "true", "false"]
  fractional : ∀ (x : α) (n : Int), numText (.real x) ≠ toString n

/-- A value that is written as a bare word. -/
inductive Bare : Value α → Prop
  | null : Bare .null
  | truth (b : Bool) : Bare (.truth b)
  | num (x : Num α) : Bare (.num x)

theorem whole_letters (n : Int) : (toString n).toList ≠ [] ∧ ∀ c ∈ (toString n).toList, c.isDigit = true ∨ c = '-' := by
  have hdigit : ∀ m c, c ∈ (Nat.repr m).toList → c.isDigit = true ∨ c = '-' := fun m c hc =>
    .inl (Nat.isDigit_of_mem_toDigits (by norm_num) le_rfl (Nat.toList_repr ▸ hc))
  rw [Int.toString_eq_repr, Int.repr_eq_if]
  split
  · exact ⟨by rw [Nat.toList_repr]; exact Nat.toDigits_ne_nil, hdigit _⟩
  · refine ⟨by simp, fun c hc => ?_⟩
    rw [String.toList_append, List.mem_append] at hc
    rcases hc with hc | hc
    · exact .inr (List.mem_singleton.1 hc)
    · exact hdigit _ c hc

theorem whole_text (n : Int) : toString n ≠ "" ∧ toString n ∉ ["null", "true", "false"] ∧
    ∀ c ∈ (toString n).toList, c ∉ marks := by
  obtain ⟨hnonempty, hletters⟩ := whole_letters n
  refine ⟨fun h => hnonempty (by rw [h]; rfl), fun h => ?_, fun c hc hmark => ?_⟩
  · simp only [List.mem_cons, List.not_mem_nil, or_false] at h
    rcases h with h | h | h
    · exact absurd (hletters 'l' (by rw [h]; decide)) (by decide)
    · exact absurd (hletters 'e' (by rw [h]; decide)) (by decide)
    · exact absurd (hletters 'e' (by rw [h]; decide)) (by decide)
  · have := hletters c hc
    simp only [marks, List.mem_cons, List.not_mem_nil, or_false] at hmark
    rcases hmark with rfl | rfl | rfl | rfl | rfl | rfl <;> revert this <;> decide

theorem Bare.unmarked (hα : Legible α) {v : Value α} (h : Bare v) : written v ≠ [] ∧ ∀ c ∈ written v, c ∉ marks := by
  cases h with
  | null => exact ⟨by simp [written], by simp [written, marks]⟩
  | truth b => cases b <;> exact ⟨by simp [written], by simp [written, marks]⟩
  | num x =>
    rw [written]
    cases x with
    | whole n => exact ⟨fun h => (whole_text n).1 (String.toList_inj.1 h), (whole_text n).2.2⟩
    | real x => exact ⟨fun h => hα.nonempty x (String.toList_inj.1 h), hα.unmarked x⟩

theorem numText_apart (hα : Legible α) (x : Num α) : numText x ∉ ["null", "true", "false"] := by
  cases x with
  | whole n => exact (whole_text n).2.1
  | real x => exact hα.apart x

theorem numText_injective (hα : Legible α) {x y : Num α} (h : numText x = numText y) : x = y := by
  cases x with
  | whole m =>
    cases y with
    | whole n =>
      have hread : (toString m).toInt? = some m := Int.toInt?_repr m
      rw [show toString m = toString n from h, show (toString n).toInt? = some n from Int.toInt?_repr n] at hread
      rw [Option.some.inj hread]
    | real y => exact absurd h.symm (hα.fractional y m)
  | real x =>
    cases y with
    | whole n => exact absurd h (hα.fractional x n)
    | real y => rw [hα.injective x y h]

theorem Bare.injective (hα : Legible α) {v w : Value α} (hv : Bare v) (hw : Bare w) (h : written v = written w) :
    v = w := by
  have hword : ∀ x : Num α, ∀ s ∈ ["null", "true", "false"], (numText x).toList ≠ s.toList := fun x s hs heq =>
    numText_apart hα x (String.toList_inj.1 heq ▸ hs)
  cases hv with
  | null =>
    cases hw with
    | null => rfl
    | truth b => cases b <;> simp [written] at h
    | num x => exact absurd h.symm (hword x "null" (by decide))
  | truth b =>
    cases hw with
    | null => cases b <;> simp [written] at h
    | truth b' => cases b <;> cases b' <;> simp [written] at h ⊢
    | num x =>
      cases b
      · exact absurd h.symm (hword x "false" (by decide))
      · exact absurd h.symm (hword x "true" (by decide))
  | num x =>
    cases hw with
    | null => exact absurd h (hword x "null" (by decide))
    | truth b =>
      cases b
      · exact absurd h (hword x "false" (by decide))
      · exact absurd h (hword x "true" (by decide))
    | num y => rw [numText_injective hα (String.toList_inj.1 h)]

/-- What may stand after a value: nothing, or a character that ends a value. -/
def Ends (rest : List Char) : Prop := ∀ c ∈ rest.head?, c ∈ [',', ']', '\x7d']

theorem Ends.cons {c : Char} (h : c ∈ [',', ']', '\x7d']) (rest : List Char) : Ends (c :: rest) := by
  intro d hd
  obtain rfl : c = d := Option.some.inj hd
  exact h

theorem Ends.not_word {rest : List Char} (hrest : Ends rest) : ∀ c ∈ rest.head?, ¬ c ∉ marks := by
  intro c hc
  have := hrest c hc
  simp only [List.mem_cons, List.not_mem_nil, or_false] at this
  rcases this with rfl | rfl | rfl <;> decide

/-- A text that begins with a word begins with no other one, a word being made of letters of one sort and
followed by none of them. -/
theorem word_unique {W : Char → Prop} : ∀ {u u' rest rest' : List Char}, (∀ c ∈ u, W c) → (∀ c ∈ u', W c) →
    (∀ c ∈ rest.head?, ¬ W c) → (∀ c ∈ rest'.head?, ¬ W c) → u ++ rest = u' ++ rest' → u = u' ∧ rest = rest'
  | [], [], _, _, _, _, _, _, h => ⟨rfl, h⟩
  | [], c :: u', rest, rest', _, hu', hrest, _, h => by
    rw [show rest = c :: (u' ++ rest') from h] at hrest
    exact absurd (hu' c List.mem_cons_self) (hrest c rfl)
  | c :: u, [], rest, rest', hu, _, _, hrest', h => by
    rw [show rest' = c :: (u ++ rest) from h.symm] at hrest'
    exact absurd (hu c List.mem_cons_self) (hrest' c rfl)
  | c :: u, c' :: u', rest, rest', hu, hu', hrest, hrest', h => by
    obtain ⟨rfl, htail⟩ := List.cons.inj h
    obtain ⟨rfl, hsame⟩ := word_unique (fun d hd => hu d (List.mem_cons_of_mem _ hd))
      (fun d hd => hu' d (List.mem_cons_of_mem _ hd)) hrest hrest' htail
    exact ⟨rfl, hsame⟩

/-! ## Parts with commas -/

/-- What stands after a part, before others and the end of the sequence. -/
def following (close : Char) (rest : List Char) : List (List Char) → List Char
  | [] => close :: rest
  | p :: ps => ',' :: (separated (p :: ps) ++ close :: rest)

theorem separated_cons (p : List Char) (ps : List (List Char)) (close : Char) (rest : List Char) :
    separated (p :: ps) ++ close :: rest = p ++ following close rest ps := by
  cases ps with
  | nil => rw [separated, List.intercalate_singleton, following]
  | cons q ps => rw [separated, List.intercalate_cons_cons, following, separated, List.append_assoc, List.append_assoc]; rfl

theorem following_ends {close : Char} (hclose : close ∈ [']', '\x7d']) (rest : List Char) (ps : List (List Char)) :
    Ends (following close rest ps) := by
  cases ps with
  | nil => exact .cons (List.mem_cons_of_mem _ hclose) _
  | cons p ps => exact .cons List.mem_cons_self _

/-- A text that begins with parts begins with no other ones, if this holds of each part. -/
theorem parts_unique {β : Type} {f : β → List Char} {R : β → β → Prop} {close : Char} (hclose : close ∈ [']', '\x7d']) :
    ∀ {xs ys : List β} {rest rest' : List Char},
      (∀ x ∈ xs, ∀ y ∈ ys, ∀ r r', Ends r → Ends r' → f x ++ r = f y ++ r' → R x y ∧ r = r') →
      (∀ x, x ∈ xs ∨ x ∈ ys → ∃ c cs, f x = c :: cs ∧ c ≠ close) →
      separated (xs.map f) ++ close :: rest = separated (ys.map f) ++ close :: rest' →
      List.Forall₂ R xs ys ∧ rest = rest' := by
  have hcomma : close ≠ ',' := by
    simp only [List.mem_cons, List.not_mem_nil, or_false] at hclose
    rcases hclose with rfl | rfl <;> decide
  have hnone : ∀ (y : β) (ys : List β) (r r' : List Char), (∃ c cs, f y = c :: cs ∧ c ≠ close) →
      close :: r ≠ separated ((y :: ys).map f) ++ close :: r' := by
    rintro y ys r r' ⟨c, cs, hc, hfirst⟩ h
    rw [List.map_cons, separated_cons, hc, List.cons_append] at h
    exact hfirst (List.cons.inj h).1.symm
  intro xs
  induction xs with
  | nil =>
    intro ys rest rest' _ hfirst h
    cases ys with
    | nil => exact ⟨.nil, (List.cons.inj h).2⟩
    | cons y ys => exact absurd h (hnone y ys rest rest' (hfirst y (.inr List.mem_cons_self)))
  | cons x xs ih =>
    intro ys rest rest' hparts hfirst h
    cases ys with
    | nil => exact absurd h.symm (hnone x xs rest' rest (hfirst x (.inl List.mem_cons_self)))
    | cons y ys =>
      rw [List.map_cons, List.map_cons, separated_cons, separated_cons] at h
      obtain ⟨hR, hmore⟩ := hparts x List.mem_cons_self y List.mem_cons_self _ _ (following_ends hclose _ _)
        (following_ends hclose _ _) h
      cases xs with
      | nil =>
        cases ys with
        | nil => exact ⟨.cons hR .nil, (List.cons.inj hmore).2⟩
        | cons y' ys => exact absurd (List.cons.inj hmore).1 hcomma
      | cons x' xs =>
        cases ys with
        | nil => exact absurd (List.cons.inj hmore).1.symm hcomma
        | cons y' ys =>
          obtain ⟨hRs, hsame⟩ := ih (fun u hu w hw => hparts u (List.mem_cons_of_mem _ hu) w (List.mem_cons_of_mem _ hw))
            (fun u hu => hfirst u (hu.imp (List.mem_cons_of_mem _) (List.mem_cons_of_mem _))) (List.cons.inj hmore).2
          exact ⟨.cons hR hRs, hsame⟩

/-! ## Values -/

/-- The first character of what is written with marks. -/
def mark? : Value α → Option Char
  | .text _ => some '"'
  | .list _ | .tuple _ => some '['
  | .object _ => some '\x7b'
  | _ => none

/-- The first character of a value tells the shape of the value. -/
theorem written_first (hα : Legible α) {v : Value α} (hv : v.Plain) :
    ∃ c cs, written v = c :: cs ∧ c ∉ [',', ']', '\x7d'] ∧ mark? v = if c ∈ marks then some c else none := by
  have hbare : Bare v → mark? v = none →
      ∃ c cs, written v = c :: cs ∧ c ∉ [',', ']', '\x7d'] ∧ mark? v = if c ∈ marks then some c else none := by
    intro hword hmark
    obtain ⟨hne, hunmarked⟩ := hword.unmarked hα
    obtain ⟨c, cs, hcs⟩ := List.exists_cons_of_ne_nil hne
    have hc := hunmarked c (by rw [hcs]; exact List.mem_cons_self)
    refine ⟨c, cs, hcs, fun h => hc ?_, by rw [hmark, if_neg hc]⟩
    simp only [marks, List.mem_cons, List.not_mem_nil, or_false] at h ⊢
    tauto
  cases hv with
  | null => exact hbare .null rfl
  | truth b => exact hbare (.truth b) rfl
  | num x => exact hbare (.num x) rfl
  | text s => exact ⟨_, _, (by rw [written, toList_stringText]), by decide, rfl⟩
  | list | tuple => exact ⟨_, _, (by rw [written]), by decide, rfl⟩
  | object => exact ⟨_, _, written_object _, by decide, rfl⟩

theorem mark?_eq (hα : Legible α) {v w : Value α} (hv : v.Plain) (hw : w.Plain) {rest rest' : List Char}
    (h : written v ++ rest = written w ++ rest') : mark? v = mark? w := by
  obtain ⟨c, cs, hcs, -, hmark⟩ := written_first hα hv
  obtain ⟨c', cs', hcs', -, hmark'⟩ := written_first hα hw
  rw [hcs, hcs', List.cons_append, List.cons_append] at h
  rw [hmark, hmark', (List.cons.inj h).1]

/-- A text that begins with the value begins with no other plain one, up to the order of fields. -/
def Recognized (v : Value α) : Prop :=
  ∀ {w : Value α}, w.Plain → ∀ {rest rest' : List Char}, Ends rest → Ends rest' →
    written v ++ rest = written w ++ rest' → v.canonical = w.canonical ∧ rest = rest'

theorem Bare.recognized (hα : Legible α) {v : Value α} (hv : Bare v) : Recognized v := by
  intro w hw rest rest' hrest hrest' h
  have hmark : mark? v = none := by cases hv <;> rfl
  have hbare : Bare w := by
    rw [mark?_eq hα (by cases hv <;> constructor) hw h] at hmark
    cases hw <;> first | constructor | cases hmark
  obtain ⟨hsame, hfollows⟩ := word_unique (hv.unmarked hα).2 (hbare.unmarked hα).2 hrest.not_word hrest'.not_word h
  rw [hv.injective hα hbare hsame]
  exact ⟨rfl, hfollows⟩

theorem text_recognized (hα : Legible α) (s : String) : Recognized (.text s : Value α) := by
  intro w hw rest rest' _ _ h
  have hmark := mark?_eq hα (.text s) hw h
  cases hw with
  | text s' =>
    rw [written, written] at h
    obtain ⟨rfl, hfollows⟩ := stringText_prefix h
    exact ⟨rfl, hfollows⟩
  | _ => cases hmark

theorem written_lists {v : Value α} {items : List (Value α)} (h : v.Lists items) (rest : List Char) :
    written v ++ rest = '[' :: (separated (items.map written) ++ ']' :: rest) := by
  cases h <;> rw [written, writtenItems_eq, List.cons_append, List.append_assoc] <;> rfl

theorem lists_recognized (hα : Legible α) {v : Value α} {items : List (Value α)} (h : v.Lists items)
    (hplain : ∀ x ∈ items, x.Plain) (hitems : ∀ x ∈ items, Recognized x) : Recognized v := by
  intro w hw rest rest' _ _ heq
  have hmark := mark?_eq hα (by cases h <;> constructor <;> exact hplain) hw heq
  obtain ⟨items', h', hplain'⟩ : ∃ items', w.Lists items' ∧ ∀ x ∈ items', x.Plain := by
    cases hw with
    | list hplain' => exact ⟨_, .list _, hplain'⟩
    | tuple hplain' => exact ⟨_, .tuple _, hplain'⟩
    | _ => cases h <;> cases hmark
  have hfirst : ∀ x, x ∈ items ∨ x ∈ items' → ∃ c cs, written x = c :: cs ∧ c ≠ ']' := fun x hx => by
    obtain ⟨c, cs, hc, hfirst, -⟩ := written_first hα (hx.elim (hplain x) (hplain' x))
    exact ⟨c, cs, hc, fun h => hfirst (by rw [h]; decide)⟩
  rw [written_lists h, written_lists h'] at heq
  obtain ⟨hsame, hfollows⟩ := parts_unique (by decide)
    (fun x hx y hy r r' hr hr' => hitems x hx (hplain' y hy) hr hr') hfirst (List.cons.inj heq).2
  rw [h.canonical, h'.canonical, map_eq_of_forall₂ hsame fun _ _ h => h]
  exact ⟨rfl, hfollows⟩

/-- A field is told by its name and the value behind it. -/
theorem field_recognized {f g : Key α × Value α} {name name' : String} (hname : f.1 = .text name)
    (hname' : g.1 = .text name') (hf : Recognized f.2) (hg : g.2.Plain) {rest rest' : List Char} (hrest : Ends rest)
    (hrest' : Ends rest') (h : writtenField f ++ rest = writtenField g ++ rest') :
    (f.1 = g.1 ∧ f.2.canonical = g.2.canonical) ∧ rest = rest' := by
  rw [writtenField, writtenField, List.append_assoc, List.append_assoc, hname, hname'] at h
  obtain ⟨hkeys, hvalue⟩ := stringText_prefix h
  obtain ⟨hcanonical, hfollows⟩ := hf hg hrest hrest' (List.cons.inj hvalue).2
  rw [hname, hname', show name = name' from hkeys]
  exact ⟨⟨rfl, hcanonical⟩, hfollows⟩

theorem object_recognized (hα : Legible α) {fields : List (Key α × Value α)}
    (hplain : (Value.object fields).Plain) (hfields : ∀ f ∈ fields, Recognized f.2) :
    Recognized (.object fields) := by
  intro w hw rest rest' _ _ h
  have hmark := mark?_eq hα hplain hw h
  cases hplain with
  | object hnames =>
  cases hw with
  | @object fields' hnames' _ hvalues' =>
    have hmem : ∀ {fields : List (Key α × Value α)} {f}, f ∈ fields.mergeSort byName → f ∈ fields := fun hf =>
      (List.mergeSort_perm _ _).mem_iff.1 hf
    have hfirst : ∀ f, f ∈ fields.mergeSort byName ∨ f ∈ fields'.mergeSort byName →
        ∃ c cs, writtenField f = c :: cs ∧ c ≠ '\x7d' := fun f _ => by
      rw [writtenField, toList_stringText]
      exact ⟨_, _, rfl, by decide⟩
    rw [written_object, written_object, List.cons_append, List.cons_append, List.append_assoc, List.append_assoc] at h
    obtain ⟨hsame, hfollows⟩ := parts_unique (by decide) (fun f hf g hg r r' hr hr' => by
      obtain ⟨name, hname⟩ := hnames f (hmem hf)
      obtain ⟨name', hname'⟩ := hnames' g (hmem hg)
      exact field_recognized hname hname' (hfields f (hmem hf)) (hvalues' g (hmem hg)) hr hr')
      hfirst (List.cons.inj h).2
    have hcanonical : ((fields.mergeSort byName).map fun f => (f.1, f.2.canonical)) =
        (fields'.mergeSort byName).map fun f => (f.1, f.2.canonical) :=
      map_eq_of_forall₂ hsame fun _ _ h => Prod.ext h.1 h.2
    rw [Value.canonical_object, Value.canonical_object, hcanonical]
    exact ⟨rfl, hfollows⟩
  | _ => cases hmark

theorem plain_recognized (hα : Legible α) {v : Value α} (hv : v.Plain) : Recognized v := by
  induction hv with
  | null => exact Bare.null.recognized hα
  | truth b => exact (Bare.truth b).recognized hα
  | num x => exact (Bare.num x).recognized hα
  | text s => exact text_recognized hα s
  | list hplain ih => exact lists_recognized hα (.list _) hplain ih
  | tuple hplain ih => exact lists_recognized hα (.tuple _) hplain ih
  | object hnames hdistinct hvalues ih => exact object_recognized hα (.object hnames hdistinct hvalues) ih

/-- Plain values with one text agree up to the order of fields. -/
theorem written_canonical (hα : Legible α) {v w : Value α} (hv : v.Plain) (hw : w.Plain) (h : written v = written w) :
    v.canonical = w.canonical := by
  have hends : Ends [] := fun c hc => by cases hc
  exact (plain_recognized hα hv hw hends hends (by rw [h])).1

end Json

end StrategyLab
