/-
The grammar of JSON text, over the characters of a text, and what of it the printer writes. The printer knows
words for infinities and for the undefined value that the grammar does not: the text of a value is JSON text if
and only if all numbers in it are finite (`render_isText_iff`). Records are made of finite numbers, so that their
texts always are (`record_isText`). Of the scalars this needs only that the text of a finite one is a number of
the grammar (`Numeric`).
-/
import StrategyLab.Proofs.Agree
import StrategyLab.Proofs.Json.Reading

namespace StrategyLab.Json

/-! ## Numbers and strings -/

/-- At least one digit. -/
def Digits (ds : List Char) : Prop := ds ≠ [] ∧ ∀ c ∈ ds, c.isDigit = true

/-- The digits before the point: without a zero in front of others. -/
inductive IsWhole : List Char → Prop
  | zero : IsWhole ['0']
  | digits {d : Char} {ds : List Char} (hd : d.isDigit = true) (hzero : d ≠ '0')
      (hds : ∀ c ∈ ds, c.isDigit = true) : IsWhole (d :: ds)

/-- A point with digits, or nothing. -/
inductive IsFraction : List Char → Prop
  | none : IsFraction []
  | digits {ds : List Char} (hds : Digits ds) : IsFraction ('.' :: ds)

/-- A power of ten, or nothing. -/
inductive IsExponent : List Char → Prop
  | none : IsExponent []
  | plain {e : Char} {ds : List Char} (he : e ∈ ['e', 'E']) (hds : Digits ds) : IsExponent (e :: ds)
  | signed {e sign : Char} {ds : List Char} (he : e ∈ ['e', 'E']) (hsign : sign ∈ ['+', '-']) (hds : Digits ds) :
      IsExponent (e :: sign :: ds)

/-- A number without a sign. -/
inductive IsMagnitude : List Char → Prop
  | parts {whole fraction exponent : List Char} (hwhole : IsWhole whole) (hfraction : IsFraction fraction)
      (hexponent : IsExponent exponent) : IsMagnitude (whole ++ (fraction ++ exponent))

/-- A number. -/
inductive IsNumber : List Char → Prop
  | plain {cs : List Char} (h : IsMagnitude cs) : IsNumber cs
  | minus {cs : List Char} (h : IsMagnitude cs) : IsNumber ('-' :: cs)

/-- A hexadecimal digit. -/
def IsHex (c : Char) : Prop := c.isDigit = true ∨ 'a' ≤ c ∧ c ≤ 'f' ∨ 'A' ≤ c ∧ c ≤ 'F'

/-- The characters between the quotes of a string. -/
inductive IsInner : List Char → Prop
  | nil : IsInner []
  | plain {c : Char} {cs : List Char} (hlow : 32 ≤ c.toNat) (hquote : c ≠ '"') (hbackslash : c ≠ '\\')
      (h : IsInner cs) : IsInner (c :: cs)
  | escape {c : Char} {cs : List Char} (hc : c ∈ ['"', '\\', '/', 'b', 'f', 'n', 'r', 't']) (h : IsInner cs) :
      IsInner ('\\' :: c :: cs)
  | unit {a b c d : Char} {cs : List Char} (ha : IsHex a) (hb : IsHex b) (hc : IsHex c) (hd : IsHex d)
      (h : IsInner cs) : IsInner ('\\' :: 'u' :: a :: b :: c :: d :: cs)

/-- A string. -/
inductive IsString : List Char → Prop
  | quoted {cs : List Char} (h : IsInner cs) : IsString ('"' :: (cs ++ ['"']))

/-! ## Values -/

/-- White space. -/
def Blank (cs : List Char) : Prop := ∀ c ∈ cs, c ∈ [' ', '\t', '\n', '\r']

/-- What the grammar derives: a value, one with white space around it, one or more of these with commas between
them, and fields in the same way. -/
inductive Nonterminal where
  | value
  | item
  | items
  | field
  | fields

/-- A text is derived as a part. -/
inductive Derives : Nonterminal → List Char → Prop
  | nullWord : Derives .value ['n', 'u', 'l', 'l']
  | falseWord : Derives .value ['f', 'a', 'l', 's', 'e']
  | trueWord : Derives .value ['t', 'r', 'u', 'e']
  | number {cs : List Char} (h : IsNumber cs) : Derives .value cs
  | string {cs : List Char} (h : IsString cs) : Derives .value cs
  | emptyArray {gap : List Char} (hgap : Blank gap) : Derives .value ('[' :: (gap ++ [']']))
  | array {cs : List Char} (h : Derives .items cs) : Derives .value ('[' :: (cs ++ [']']))
  | emptyObject {gap : List Char} (hgap : Blank gap) : Derives .value ('\x7b' :: (gap ++ ['\x7d']))
  | object {cs : List Char} (h : Derives .fields cs) : Derives .value ('\x7b' :: (cs ++ ['\x7d']))
  | item {before cs after : List Char} (hbefore : Blank before) (h : Derives .value cs) (hafter : Blank after) :
      Derives .item (before ++ (cs ++ after))
  | oneItem {cs : List Char} (h : Derives .item cs) : Derives .items cs
  | items {cs rest : List Char} (h : Derives .item cs) (hrest : Derives .items rest) :
      Derives .items (cs ++ ',' :: rest)
  | field {before name after cs : List Char} (hbefore : Blank before) (hname : IsString name) (hafter : Blank after)
      (h : Derives .item cs) : Derives .field (before ++ (name ++ (after ++ ':' :: cs)))
  | oneField {cs : List Char} (h : Derives .field cs) : Derives .fields cs
  | fields {cs rest : List Char} (h : Derives .field cs) (hrest : Derives .fields rest) :
      Derives .fields (cs ++ ',' :: rest)

/-- A text is JSON text: a value with white space around it. -/
def IsText (text : String) : Prop := Derives .item text.toList

/-! ## What is written as a number -/

theorem isWhole_of_digits {ds : List Char} (hds : Digits ds) (hzero : ds.head? = some '0' → ds.length ≤ 1) :
    IsWhole ds := by
  obtain ⟨hne, hdigits⟩ := hds
  obtain ⟨d, ds, rfl⟩ := List.exists_cons_of_ne_nil hne
  obtain ⟨hd, hrest⟩ := List.forall_mem_cons.1 hdigits
  by_cases h : d = '0'
  · subst h
    have hlength := hzero rfl
    obtain rfl : ds = [] := by simpa using hlength
    exact .zero
  · exact .digits hd h hrest

theorem isWhole_toDigits (n : Nat) : IsWhole (Nat.toDigits 10 n) := by
  have hdigits : ∀ c ∈ Nat.toDigits 10 n, c.isDigit = true := fun c hc =>
    Nat.isDigit_of_mem_toDigits (by norm_num) le_rfl hc
  refine isWhole_of_digits ⟨Nat.toDigits_ne_nil, hdigits⟩ fun hzero => ?_
  rcases Nat.eq_zero_or_pos n with rfl | hpos
  · simp
  · exact absurd hzero (toDigits_head hpos)

/-- A whole number is written as one, also with a fraction behind it. -/
theorem isNumber_toString {fraction : List Char} (hfraction : IsFraction fraction) (n : Int) :
    IsNumber ((toString n).toList ++ fraction) := by
  have hmagnitude : ∀ m : Nat, IsMagnitude (Nat.toDigits 10 m ++ fraction) := by
    intro m
    have hparts := IsMagnitude.parts (isWhole_toDigits m) hfraction .none
    rwa [List.append_nil] at hparts
  rw [Int.toString_eq_repr, Int.repr_eq_if]
  split
  · rw [Nat.toList_repr]
    exact .plain (hmagnitude _)
  · rw [String.toList_append, Nat.toList_repr]
    exact .minus (hmagnitude _)

variable {α : Type} [Scalar α]

/-- The texts of finite scalars are numbers. -/
def Numeric (α : Type) [Scalar α] : Prop := ∀ x : α, Scalar.isFinite x = true → IsNumber (Scalar.text x).toList

/-! ## What is written as a string -/

theorem isHex_digitChar : ∀ d < 16, IsHex (Nat.digitChar d) := by
  unfold IsHex
  decide

theorem IsInner.hexPadded {n : Nat} (hn : n < 65536) {cs : List Char} (h : IsInner cs) :
    IsInner ('\\' :: 'u' :: Text.hexPadded 4 n ++ cs) := by
  rw [hexPadded_four hn]
  apply IsInner.unit _ _ _ _ h <;> apply isHex_digitChar <;> omega

theorem IsInner.escapeChar (c : Char) {cs : List Char} (h : IsInner cs) : IsInner (Json.escapeChar c ++ cs) := by
  have hvalid := toNat_valid c
  unfold Json.escapeChar
  dsimp only
  split_ifs with h1 h2 h3 h4 h5 h6 h7 h8 h9
  · exact .escape (by simp) h
  · exact .escape (by simp) h
  · exact .escape (by simp) h
  · exact .escape (by simp) h
  · exact .escape (by simp) h
  · exact .escape (by simp) h
  · exact .escape (by simp) h
  · exact .plain h8.1 h1 h2 h
  · exact h.hexPadded h9
  · rw [List.append_assoc]
    exact IsInner.hexPadded (by omega) (IsInner.hexPadded (by omega) h)

theorem isString_stringText (s : String) : IsString (stringText s).toList := by
  rw [toList_stringText]
  apply IsString.quoted
  induction s.toList with
  | nil => exact .nil
  | cons c cs ih => exact List.flatMap_cons ▸ ih.escapeChar c

/-! ## Characters outside of strings -/

/-- Where a character of a text stands: outside of strings, inside of one, or behind a backslash there. -/
inductive Zone where
  | outside
  | inside
  | escaped

/-- The zone that a text leads to, and its characters outside of strings. -/
def unquotedFrom : Zone → List Char → Zone × List Char
  | zone, [] => (zone, [])
  | .outside, c :: cs =>
    if c = '"' then unquotedFrom .inside cs else ((unquotedFrom .outside cs).1, c :: (unquotedFrom .outside cs).2)
  | .inside, c :: cs =>
    if c = '"' then unquotedFrom .outside cs else if c = '\\' then unquotedFrom .escaped cs else unquotedFrom .inside cs
  | .escaped, _ :: cs => unquotedFrom .inside cs

/-- A text that ends outside of strings, with its characters there. -/
def Unquoted (cs outer : List Char) : Prop := unquotedFrom .outside cs = (.outside, outer)

theorem unquotedFrom_append (rest : List Char) : ∀ (zone : Zone) (cs : List Char), unquotedFrom zone (cs ++ rest) =
    ((unquotedFrom (unquotedFrom zone cs).1 rest).1,
      (unquotedFrom zone cs).2 ++ (unquotedFrom (unquotedFrom zone cs).1 rest).2)
  | zone, [] => by cases zone <;> rfl
  | .outside, c :: cs => by
    simp only [List.cons_append, unquotedFrom]
    split
    · exact unquotedFrom_append rest .inside cs
    · rw [unquotedFrom_append rest .outside cs]
      rfl
  | .inside, c :: cs => by
    simp only [List.cons_append, unquotedFrom]
    split_ifs
    · exact unquotedFrom_append rest .outside cs
    · exact unquotedFrom_append rest .escaped cs
    · exact unquotedFrom_append rest .inside cs
  | .escaped, c :: cs => by
    simp only [List.cons_append, unquotedFrom]
    exact unquotedFrom_append rest .inside cs

theorem Unquoted.append {cs ds outer outer' : List Char} (h : Unquoted cs outer) (h' : Unquoted ds outer') :
    Unquoted (cs ++ ds) (outer ++ outer') := by
  unfold Unquoted at *
  rw [unquotedFrom_append, h, h']

theorem Unquoted.plain : ∀ {cs : List Char}, (∀ c ∈ cs, c ≠ '"') → Unquoted cs cs
  | [], _ => rfl
  | c :: cs, h => by
    obtain ⟨hc, hcs⟩ := List.forall_mem_cons.1 h
    have hrest : unquotedFrom .outside cs = (.outside, cs) := Unquoted.plain hcs
    simp only [Unquoted, unquotedFrom, if_neg hc, hrest]

/-- Inside of a string one stays there. -/
theorem IsInner.unquotedFrom {cs : List Char} (h : IsInner cs) (rest : List Char) :
    unquotedFrom .inside (cs ++ rest) = Json.unquotedFrom .inside rest := by
  have hhex : ∀ {c : Char}, IsHex c → c ≠ '"' ∧ c ≠ '\\' := by
    rintro c hc
    constructor <;> rintro rfl <;> revert hc <;> unfold IsHex <;> decide
  induction h with
  | nil => rfl
  | plain _ hquote hbackslash _ ih =>
    simp only [List.cons_append, Json.unquotedFrom, if_neg hquote, if_neg hbackslash, ih]
  | escape _ _ ih => simp only [List.cons_append, Json.unquotedFrom, ih]; rfl
  | unit ha hb hc hd _ ih =>
    obtain ⟨hq₁, hs₁⟩ := hhex ha
    obtain ⟨hq₂, hs₂⟩ := hhex hb
    obtain ⟨hq₃, hs₃⟩ := hhex hc
    obtain ⟨hq₄, hs₄⟩ := hhex hd
    simp only [List.cons_append, Json.unquotedFrom, if_neg hq₁, if_neg hs₁, if_neg hq₂, if_neg hs₂, if_neg hq₃,
      if_neg hs₃, if_neg hq₄, if_neg hs₄, ih]
    rfl

theorem IsString.unquoted {cs : List Char} (h : IsString cs) : Unquoted cs [] := by
  cases h with
  | quoted h =>
    simp only [Unquoted, unquotedFrom, if_true]
    rw [h.unquotedFrom]
    rfl

/-! ## Characters that the grammar does not know -/

/-- One of the letters that the words for infinities and for the undefined value have, and no JSON text. -/
def IsStrange (c : Char) : Prop := c = 'N' ∨ c = 'I'

/-- No such letter stands outside of strings. -/
def Clean (cs : List Char) : Prop := ∃ outer, Unquoted cs outer ∧ ∀ c ∈ outer, ¬ IsStrange c

/-- Such a letter stands outside of strings. -/
def Strange (cs : List Char) : Prop := ∃ outer, Unquoted cs outer ∧ ∃ c ∈ outer, IsStrange c

theorem Clean.not_strange {cs : List Char} (h : Clean cs) : ¬ Strange cs := by
  rintro ⟨outer', hunquoted', c, hc, hstrange⟩
  obtain ⟨outer, hunquoted, hclean⟩ := h
  obtain rfl : outer = outer' := congrArg Prod.snd (hunquoted.symm.trans hunquoted')
  exact hclean c hc hstrange

theorem Clean.append {cs ds : List Char} (h : Clean cs) (h' : Clean ds) : Clean (cs ++ ds) := by
  obtain ⟨outer, hunquoted, hclean⟩ := h
  obtain ⟨outer', hunquoted', hclean'⟩ := h'
  exact ⟨_, hunquoted.append hunquoted', fun c hc => (List.mem_append.1 hc).elim (hclean c) (hclean' c)⟩

theorem Strange.append {cs ds : List Char} (h : Strange cs) (h' : Clean ds ∨ Strange ds) : Strange (cs ++ ds) := by
  obtain ⟨outer, hunquoted, c, hc, hstrange⟩ := h
  obtain ⟨outer', hunquoted'⟩ : ∃ outer', Unquoted ds outer' := by
    obtain ⟨outer', hunquoted', -⟩ | ⟨outer', hunquoted', -⟩ := h' <;> exact ⟨outer', hunquoted'⟩
  exact ⟨_, hunquoted.append hunquoted', c, List.mem_append_left _ hc, hstrange⟩

theorem Clean.append_strange {cs ds : List Char} (h : Clean cs) (h' : Strange ds) : Strange (cs ++ ds) := by
  obtain ⟨outer, hunquoted, -⟩ := h
  obtain ⟨outer', hunquoted', c, hc, hstrange⟩ := h'
  exact ⟨_, hunquoted.append hunquoted', c, List.mem_append_right _ hc, hstrange⟩

theorem Clean.plain {cs : List Char} (h : ∀ c ∈ cs, c ≠ '"' ∧ ¬ IsStrange c) : Clean cs :=
  ⟨cs, .plain fun c hc => (h c hc).1, fun c hc => (h c hc).2⟩

theorem Clean.empty : Clean [] := ⟨[], rfl, List.forall_mem_nil _⟩

theorem IsString.clean {cs : List Char} (h : IsString cs) : Clean cs := ⟨[], h.unquoted, List.forall_mem_nil _⟩

theorem Clean.mark {c : Char} (h : c ≠ '"' ∧ ¬ IsStrange c) {cs : List Char} (hcs : Clean cs) : Clean (c :: cs) :=
  (Clean.plain (List.forall_mem_singleton.2 h)).append hcs

theorem Blank.clean {cs : List Char} (h : Blank cs) : Clean cs := by
  refine .plain fun c hc => ?_
  have hspace := h c hc
  simp only [List.mem_cons, List.not_mem_nil, or_false] at hspace
  rcases hspace with rfl | rfl | rfl | rfl <;> simp [IsStrange]

/-- A number has digits, signs, a point and the letter of an exponent. -/
theorem IsMagnitude.clean {cs : List Char} (h : IsMagnitude cs) : Clean cs := by
  have hdigit : ∀ c : Char, c.isDigit = true → c ≠ '"' ∧ ¬ IsStrange c := by
    intro c hc
    constructor
    · rintro rfl
      cases hc
    · rintro (rfl | rfl) <;> cases hc
  have hdigits : ∀ {ds : List Char}, Digits ds → ∀ c ∈ ds, c ≠ '"' ∧ ¬ IsStrange c := fun h c hc =>
    hdigit c (h.2 c hc)
  have hletter : ∀ {e : Char}, e ∈ ['e', 'E'] → e ≠ '"' ∧ ¬ IsStrange e := by simp [IsStrange]
  have hsign : ∀ {c : Char}, c ∈ ['+', '-'] → c ≠ '"' ∧ ¬ IsStrange c := by simp [IsStrange]
  obtain ⟨hwhole, hfraction, hexponent⟩ := h
  refine .append (.plain ?_) (.append (.plain ?_) (.plain ?_))
  · cases hwhole with
    | zero => simp [IsStrange]
    | digits hd _ hds => exact List.forall_mem_cons.2 ⟨hdigit _ hd, fun c hc => hdigit c (hds c hc)⟩
  · cases hfraction with
    | none => exact List.forall_mem_nil _
    | digits hds => exact List.forall_mem_cons.2 ⟨by simp [IsStrange], hdigits hds⟩
  · cases hexponent with
    | none => exact List.forall_mem_nil _
    | plain he hds => exact List.forall_mem_cons.2 ⟨hletter he, hdigits hds⟩
    | signed he hs hds =>
      exact List.forall_mem_cons.2 ⟨hletter he, List.forall_mem_cons.2 ⟨hsign hs, hdigits hds⟩⟩

theorem IsNumber.clean {cs : List Char} (h : IsNumber cs) : Clean cs := by
  cases h with
  | plain h => exact h.clean
  | minus h => exact .mark (by simp [IsStrange]) h.clean

/-- No such letter stands outside of the strings of what the grammar derives. -/
theorem Derives.clean {n : Nonterminal} {cs : List Char} (h : Derives n cs) : Clean cs := by
  have hmark : ∀ {c : Char} {cs : List Char}, c ∈ ['[', ']', '\x7b', '\x7d', ',', ':'] → Clean cs →
      Clean (c :: cs) := by
    intro c cs hc hcs
    refine .mark ?_ hcs
    simp only [List.mem_cons, List.not_mem_nil, or_false] at hc
    rcases hc with rfl | rfl | rfl | rfl | rfl | rfl <;> simp [IsStrange]
  induction h with
  | nullWord => exact .plain (by simp [IsStrange])
  | falseWord => exact .plain (by simp [IsStrange])
  | trueWord => exact .plain (by simp [IsStrange])
  | number h => exact h.clean
  | string h => exact h.clean
  | emptyArray hgap => exact hmark (by simp) (hgap.clean.append (hmark (by simp) .empty))
  | array _ ih => exact hmark (by simp) (ih.append (hmark (by simp) .empty))
  | emptyObject hgap => exact hmark (by simp) (hgap.clean.append (hmark (by simp) .empty))
  | object _ ih => exact hmark (by simp) (ih.append (hmark (by simp) .empty))
  | item hbefore _ hafter ih => exact hbefore.clean.append (ih.append hafter.clean)
  | oneItem _ ih => exact ih
  | items _ _ ih ihrest => exact ih.append (hmark (by simp) ihrest)
  | field hbefore hname hafter _ ih =>
    exact hbefore.clean.append (hname.clean.append (hafter.clean.append (hmark (by simp) ih)))
  | oneField _ ih => exact ih
  | fields _ _ ih ihrest => exact ih.append (hmark (by simp) ihrest)

/-! ## The text of a value -/

/-- All numbers of a value are finite. -/
inductive AllFinite : Value α → Prop
  | null : AllFinite .null
  | truth (b : Bool) : AllFinite (.truth b)
  | whole (n : Int) : AllFinite (.num (.whole n))
  | real {x : α} (h : Scalar.isFinite x = true) : AllFinite (.num (.real x))
  | narrow {x : α} (h : Scalar.isFinite x = true) : AllFinite (.narrow (.real x))
  | text (s : String) : AllFinite (.text s)
  | list {items : List (Value α)} (h : ∀ v ∈ items, AllFinite v) : AllFinite (.list items)
  | tuple {items : List (Value α)} (h : ∀ v ∈ items, AllFinite v) : AllFinite (.tuple items)
  | object {fields : Object α} (h : ∀ f ∈ fields, AllFinite f.2) : AllFinite (.object fields)

/-- A text is derived if something holds, and has a letter that no JSON text has if it does not. -/
inductive Spelled (finite : Prop) (n : Nonterminal) (cs : List Char) : Prop
  | derived (hfinite : finite) (h : Derives n cs)
  | strange (hnot : ¬ finite) (h : Strange cs)

namespace Spelled

variable {finite finite' finite'' : Prop} {n n' : Nonterminal} {cs rest : List Char}

theorem ended (h : Spelled finite n cs) : Clean cs ∨ Strange cs := by
  cases h with
  | derived _ h => exact .inl h.clean
  | strange _ h => exact .inr h

theorem mono (h : Spelled finite n cs) (hiff : finite' ↔ finite) (rule : Derives n cs → Derives n' cs) :
    Spelled finite' n' cs := by
  cases h with
  | derived hfinite h => exact .derived (hiff.2 hfinite) (rule h)
  | strange hnot h => exact .strange (fun h' => hnot (hiff.1 h')) h

/-- What the grammar puts around a text changes nothing. -/
theorem around {before after : List Char} (h : Spelled finite n cs) (hiff : finite' ↔ finite) (hbefore : Clean before)
    (hafter : Clean after) (rule : Derives n cs → Derives n' (before ++ (cs ++ after))) :
    Spelled finite' n' (before ++ (cs ++ after)) := by
  cases h with
  | derived hfinite h => exact .derived (hiff.2 hfinite) (rule h)
  | strange hnot h => exact .strange (fun h' => hnot (hiff.1 h')) (hbefore.append_strange (h.append (.inl hafter)))

/-- Two texts with a comma between them. -/
theorem joined (h : Spelled finite n cs) (hrest : Spelled finite' n' rest) (hiff : finite'' ↔ finite ∧ finite')
    (rule : Derives n cs → Derives n' rest → Derives n' (cs ++ ',' :: rest)) :
    Spelled finite'' n' (cs ++ ',' :: rest) := by
  have hcomma : ∀ {cs : List Char}, Clean cs → Clean (',' :: cs) := fun h => .mark (by simp [IsStrange]) h
  have hcomma' : ∀ {cs : List Char}, Strange cs → Strange (',' :: cs) := fun h =>
    (hcomma .empty).append_strange h
  cases h with
  | strange hnot h => exact .strange (fun h' => hnot (hiff.1 h').1) (h.append (hrest.ended.imp hcomma hcomma'))
  | derived hfinite h =>
    cases hrest with
    | strange hnot hrest => exact .strange (fun h' => hnot (hiff.1 h').2) (h.clean.append_strange (hcomma' hrest))
    | derived hfinite' hrest => exact .derived (hiff.2 ⟨hfinite, hfinite'⟩) (rule h hrest)

/-- White space on either side. -/
theorem item {before after : List Char} (hbefore : Blank before) (h : Spelled finite .value cs) (hafter : Blank after) :
    Spelled finite .item (before ++ (cs ++ after)) :=
  h.around Iff.rfl hbefore.clean hafter.clean fun h => .item hbefore h hafter

end Spelled

/-- Fields in their order, on one line or on several. -/
def inOrder (multiline : Bool) : Style := ⟨multiline, false, false⟩

theorem blank_newline : Blank "\n".toList := by
  simp [Blank]

theorem lineBreak_blank (multiline : Bool) (level : Nat) : Blank (lineBreak (inOrder multiline) level).toList := by
  unfold lineBreak
  split
  · rw [String.toList_append, String.toList_ofList]
    refine List.forall_mem_append.2 ⟨by simp, fun c hc => ?_⟩
    obtain rfl := List.eq_of_mem_replicate (String.toList_ofList ▸ hc)
    simp
  · exact List.forall_mem_nil _

theorem colonText_eq (style : Style) : ∃ gap, (colonText style).toList = ':' :: gap ∧ Blank gap := by
  unfold colonText
  split
  · exact ⟨[' '], rfl, by simp [Blank]⟩
  · exact ⟨[], rfl, List.forall_mem_nil _⟩

/-- A field with its name. -/
theorem Spelled.field {finite : Prop} (style : Style) {text : String} {before after : List Char} (k : Key α)
    (h : Spelled finite .value text.toList) (hbefore : Blank before) (hafter : Blank after) :
    Spelled finite .field (before ++ ((stringText (keyText k) ++ colonText style ++ text).toList ++ after)) := by
  obtain ⟨gap, hgap, hblank⟩ := colonText_eq style
  have hname := isString_stringText (keyText k)
  have hclean : Clean (before ++ ((stringText (keyText k)).toList ++ [':'])) :=
    hbefore.clean.append (hname.clean.append (.plain (by simp [IsStrange])))
  have hfield := (h.item hblank hafter).around Iff.rfl hclean .empty fun h => by
    have hderived := Derives.field hbefore hname (List.forall_mem_nil _) h
    simpa using hderived
  simpa [hgap] using hfield

/-- A list or an object with its brackets. -/
theorem Spelled.enclosed {finite finite' : Prop} {n : Nonterminal} {cs : List Char} {left right : Char}
    (h : Spelled finite n cs) (hiff : finite' ↔ finite) (hleft : left ≠ '"' ∧ ¬ IsStrange left)
    (hright : right ≠ '"' ∧ ¬ IsStrange right) (rule : Derives n cs → Derives .value (left :: (cs ++ [right]))) :
    Spelled finite' .value (left :: (cs ++ [right])) :=
  h.around hiff (.plain (List.forall_mem_singleton.2 hleft)) (.plain (List.forall_mem_singleton.2 hright)) rule

/-- A list with its brackets, as it is written. -/
theorem Spelled.listed {finite finite' : Prop} {first inner last : String}
    (h : Spelled finite .items (first.toList ++ (inner.toList ++ last.toList))) (hiff : finite' ↔ finite) :
    Spelled finite' .value ("[" ++ first ++ inner ++ last ++ "]").toList := by
  have hlist := h.enclosed hiff (by simp [IsStrange]) (by simp [IsStrange]) .array
  simpa using hlist

theorem allFinite_items {items : List (Value α)} : AllFinite (.list items) ↔ ∀ v ∈ items, AllFinite v := by
  constructor
  · rintro ⟨⟩
    assumption
  · exact .list

theorem allFinite_members {items : List (Value α)} : AllFinite (.tuple items) ↔ ∀ v ∈ items, AllFinite v := by
  constructor
  · rintro ⟨⟩
    assumption
  · exact .tuple

theorem allFinite_fields {fields : Object α} : AllFinite (.object fields) ↔ ∀ f ∈ fields, AllFinite f.2 := by
  constructor
  · rintro ⟨⟩
    assumption
  · exact .object

theorem allFinite_named {fields : List (String × Value α)} :
    AllFinite (.record fields) ↔ ∀ f ∈ fields, AllFinite f.2 :=
  allFinite_fields.trans List.forall_mem_map

theorem not_allFinite_real {x : α} (h : Scalar.isFinite x = false) : ¬ AllFinite (.num (.real x)) := by
  intro hx
  cases hx with
  | real hfinite => exact absurd hfinite (by simp [h])

theorem numText_spelled (hα : Numeric α) (x : Num α) : Spelled (AllFinite (.num x)) .value (numText x).toList := by
  cases x with
  | whole n => exact .derived (.whole n) (.number (by simpa [numText] using isNumber_toString .none n))
  | real x =>
    unfold numText
    dsimp only
    split_ifs with hfinite hundefined hnegative
    · exact .derived (.real hfinite) (.number (hα x hfinite))
    all_goals
      refine .strange (not_allFinite_real (by simpa using hfinite)) ⟨_, .plain ?_, ?_⟩
      · simp
      · simp [IsStrange]

mutual
/-- The text of a value is one of the grammar, or has a letter that no JSON text has. -/
theorem render_spelled (hα : Numeric α) {multiline : Bool} : ∀ {v : Value α} {level : Nat} {text : String},
    render (inOrder multiline) level v = .ok text → Spelled (AllFinite v) .value text.toList
  | .null, _, _, h => by
    cases h
    exact .derived .null .nullWord
  | .truth b, _, _, h => by
    cases h
    cases b
    · exact .derived (.truth _) .falseWord
    · exact .derived (.truth _) .trueWord
  | .num x, _, _, h => by
    cases h
    exact numText_spelled hα x
  | .narrow (.real x), _, _, h => by
    cases h
    refine (numText_spelled hα (.real x)).mono ?_ id
    constructor
    · rintro ⟨⟩
      exact .real ‹_›
    · rintro ⟨⟩
      exact .narrow ‹_›
  | .text s, _, _, h => by
    cases h
    exact .derived (.text s) (.string (isString_stringText s))
  | .list [], _, _, h => by
    cases h
    exact .derived (.list (List.forall_mem_nil _)) (.emptyArray (List.forall_mem_nil _))
  | .tuple [], _, _, h => by
    cases h
    exact .derived (.tuple (List.forall_mem_nil _)) (.emptyArray (List.forall_mem_nil _))
  | .list (v :: rest), level, _, h => by
    rw [render] at h
    · obtain ⟨inner, hinner, h⟩ := bind_ok h
      cases h
      have hitems := renderItems_spelled hα (lineBreak_blank multiline (level + 1)) (lineBreak_blank multiline level)
        (List.cons_ne_nil v rest) hinner
      exact hitems.listed allFinite_items
    · simp
  | .tuple (v :: rest), level, _, h => by
    rw [render] at h
    · obtain ⟨inner, hinner, h⟩ := bind_ok h
      cases h
      have hitems := renderItems_spelled hα (lineBreak_blank multiline (level + 1)) (lineBreak_blank multiline level)
        (List.cons_ne_nil v rest) hinner
      exact hitems.listed allFinite_members
    · simp
  | .object [], _, _, h => by
    cases h
    exact .derived (.object (List.forall_mem_nil _)) (.emptyObject (List.forall_mem_nil _))
  | .object (f :: rest), level, _, h => by
    rw [render] at h
    · obtain ⟨texts, htexts, h⟩ := bind_ok h
      cases h
      have hfields := renderFields_spelled hα (lineBreak_blank multiline (level + 1)) (lineBreak_blank multiline level)
        (List.cons_ne_nil f rest) htexts
      have hobject := hfields.enclosed allFinite_fields (by simp [IsStrange]) (by simp [IsStrange]) .object
      simpa using hobject
    · simp
  -- the rest is not written at all in this style
  | .narrow (.whole n), _, _, h => by simp [render, asReal, inOrder] at h
  | .instant t offset, _, _, h => by simp [render, asReal, inOrder] at h
  | .narrowTruth b, _, _, h => by simp [render, asReal, inOrder] at h
  | .array items, _, _, h => by simp [render, asReal, inOrder] at h
  | .entity fields, _, _, h => by simp [render, asReal, inOrder] at h
  | .path s, _, _, h => by simp [render, asReal, inOrder] at h

/-- The texts of items with commas between them. -/
theorem renderItems_spelled (hα : Numeric α) {multiline : Bool} : ∀ {items : List (Value α)} {level : Nat}
    {text : String} {before after : List Char}, Blank before → Blank after → items ≠ [] →
      renderItems (inOrder multiline) level items = .ok text →
        Spelled (∀ v ∈ items, AllFinite v) .items (before ++ (text.toList ++ after))
  | [], _, _, _, _, _, _, hne, _ => absurd rfl hne
  | [v], _, _, _, _, hbefore, hafter, _, h => by
    rw [renderItems] at h
    exact ((render_spelled hα h).item hbefore hafter).mono List.forall_mem_singleton .oneItem
  | v :: w :: rest, level, _, _, _, hbefore, hafter, _, h => by
    rw [renderItems] at h
    · obtain ⟨first, hfirst, h⟩ := bind_ok h
      obtain ⟨others, hothers, h⟩ := bind_ok h
      cases h
      have hnext := renderItems_spelled hα (lineBreak_blank multiline level) hafter (by simp) hothers
      have hitem := (render_spelled hα hfirst).item hbefore (List.forall_mem_nil _)
      have hboth := hitem.joined hnext List.forall_mem_cons .items
      simpa using hboth
    · simp

/-- The texts of fields with commas between them. -/
theorem renderFields_spelled (hα : Numeric α) {multiline : Bool} : ∀ {fields : List (Key α × Value α)} {level : Nat}
    {texts : List (Key α × String)} {before after : List Char}, Blank before → Blank after → fields ≠ [] →
      renderFields (inOrder multiline) level fields = .ok texts → Spelled (∀ f ∈ fields, AllFinite f.2) .fields
        (before ++
          ((String.intercalate ("," ++ lineBreak (inOrder multiline) level) (texts.map (·.2))).toList ++ after))
  | [], _, _, _, _, _, _, hne, _ => absurd rfl hne
  | [(k, v)], _, _, _, _, hbefore, hafter, _, h => by
    obtain ⟨text, htext, h⟩ := bind_ok h
    obtain ⟨others, hothers, h⟩ := bind_ok h
    cases hothers
    cases h
    have hfield := (render_spelled hα htext).field (inOrder multiline) k hbefore hafter
    rw [List.map_singleton, String.intercalate_singleton]
    exact hfield.mono List.forall_mem_singleton .oneField
  | (k, v) :: g :: rest, level, _, _, _, hbefore, hafter, _, h => by
    obtain ⟨text, htext, h⟩ := bind_ok h
    obtain ⟨others, hothers, h⟩ := bind_ok h
    cases h
    have hnext := renderFields_spelled hα (lineBreak_blank multiline level) hafter (by simp) hothers
    have hfield := (render_spelled hα htext).field (inOrder multiline) k hbefore (List.forall_mem_nil _)
    obtain ⟨other, others, rfl⟩ := List.exists_cons_of_ne_nil (renderFields_cons hothers)
    have hall : (∀ f ∈ (k, v) :: g :: rest, AllFinite f.2) ↔ AllFinite v ∧ ∀ f ∈ g :: rest, AllFinite f.2 :=
      List.forall_mem_cons
    have hboth := hfield.joined hnext hall .fields
    rw [List.map_cons, List.map_cons, String.intercalate_cons_cons]
    simpa using hboth
end

/-! ## Texts -/

/-- The text of a value is JSON text if and only if all its numbers are finite, also with white space behind it. -/
theorem render_isText_iff (hα : Numeric α) {multiline : Bool} {v : Value α} {level : Nat} {text gap : String}
    (h : render (inOrder multiline) level v = .ok text) (hgap : Blank gap.toList) :
    IsText (text ++ gap) ↔ AllFinite v := by
  have hspelled := (render_spelled hα h).item (List.forall_mem_nil _) hgap
  have htext : [] ++ (text.toList ++ gap.toList) = (text ++ gap).toList := by simp
  rw [htext] at hspelled
  constructor
  · intro hderived
    cases hspelled with
    | derived hfinite _ => exact hfinite
    | strange _ hstrange => exact absurd hstrange hderived.clean.not_strange
  · intro hfinite
    cases hspelled with
    | derived _ hderived => exact hderived
    | strange hnot _ => exact absurd hfinite hnot

/-- All numbers of a record are finite. -/
theorem allFinite_record {v : Value α} (h : v.IsRecord) : AllFinite v := by
  induction h with
  | null => exact .null
  | truth b => exact .truth b
  | whole n => exact .whole n
  | real hfinite => exact .real hfinite
  | text s => exact .text s
  | list _ ih => exact .list ih
  | object _ _ _ ih => exact .object ih

/-- The text of a record is JSON text, also with white space behind it. -/
theorem record_isText (hα : Numeric α) {multiline : Bool} {v : Value α} {level : Nat} {text gap : String}
    (h : render (inOrder multiline) level v.toRecord = .ok text) (hgap : Blank gap.toList) : IsText (text ++ gap) :=
  (render_isText_iff hα h hgap).2 (allFinite_record (Value.toRecord_isRecord v))

end StrategyLab.Json
