/-
The tokens that a text spells, with gaps between them, are the tokens that the automaton cuts it into
(`tokensFrom_spells`). A string may stand next to anything, a bare word only where something ends it.
-/
import StrategyLab.Proofs.Json.Strings

namespace StrategyLab.Json

/-! ## Letters -/

/-- A character of the bare words that are written: a letter or a digit, a sign or a point. -/
def isLetter (c : Char) : Bool := c.isAlphanum || c = '-' || c = '+' || c = '.'

/-- A character that ends a bare word. -/
def isBreak (c : Char) : Bool := isSpace c || (punctuation? c).isSome

/-- What may follow a bare word. -/
def Breaks (rest : List Char) : Prop := ∀ c ∈ rest.head?, isBreak c = true

theorem Breaks.nil : Breaks [] := nofun

theorem Breaks.cons {c : Char} (h : isBreak c = true) (rest : List Char) : Breaks (c :: rest) := by
  rintro d hd
  obtain rfl : c = d := Option.some.inj hd
  exact h

theorem isAlphanum_range {c : Char} (h : c.isAlphanum = true) :
    48 ≤ c.toNat ∧ c.toNat ≤ 57 ∨ 65 ≤ c.toNat ∧ c.toNat ≤ 90 ∨ 97 ≤ c.toNat ∧ c.toNat ≤ 122 := by
  change ((decide ('A'.val ≤ c.val ∧ c.val ≤ 'Z'.val) || (decide ('a'.val ≤ c.val) && decide (c.val ≤ 'z'.val))) ||
    (decide ('0'.val ≤ c.val) && decide (c.val ≤ '9'.val))) = true at h
  simp only [Bool.or_eq_true, Bool.and_eq_true, decide_eq_true_eq, UInt32.le_iff_toNat_le] at h
  have hval : c.val.toNat = c.toNat ∧ 'A'.val.toNat = 65 ∧ 'Z'.val.toNat = 90 ∧ 'a'.val.toNat = 97 ∧ 'z'.val.toNat = 122 ∧
    '0'.val.toNat = 48 ∧ '9'.val.toNat = 57 := ⟨rfl, rfl, rfl, rfl, rfl, rfl, rfl⟩
  omega

/-- Letters are printable, and are no blanks, quotes, backslashes or punctuation. -/
theorem isLetter_range {c : Char} (h : isLetter c = true) : 43 ≤ c.toNat ∧ c.toNat ≤ 122 ∧
    c.toNat ∉ [44, 58, 91, 92, 93] := by
  simp only [isLetter, Bool.or_eq_true, decide_eq_true_eq] at h
  rcases h with ((h | rfl) | rfl) | rfl
  · have := isAlphanum_range h
    simp only [List.mem_cons, List.not_mem_nil, or_false]
    omega
  all_goals decide

theorem ne_of_toNat_ne {c d : Char} (h : c.toNat ≠ d.toNat) : c ≠ d := fun heq => h (congrArg Char.toNat heq)

theorem isLetter_apart {c : Char} (h : isLetter c = true) :
    isBreak c = false ∧ c ≠ '"' ∧ c ≠ '\\' ∧ c ≠ ' ' ∧ c ≠ '\n' ∧ c ≠ '\r' := by
  obtain ⟨hlow, hhigh, hother⟩ := isLetter_range h
  simp only [List.mem_cons, List.not_mem_nil, or_false, not_or] at hother
  have hne : ∀ d : Char, (d.toNat < 43 ∨ 122 < d.toNat ∨ d.toNat ∈ [44, 58, 91, 92, 93]) → c ≠ d := by
    intro d hd
    refine ne_of_toNat_ne ?_
    simp only [List.mem_cons, List.not_mem_nil, or_false] at hd
    omega
  refine ⟨?_, hne _ (by decide), hne _ (by decide), hne _ (by decide), hne _ (by decide), hne _ (by decide)⟩
  unfold isBreak isSpace punctuation?
  simp [hne ' ' (by decide), hne '\t' (by decide), hne '\n' (by decide), hne '\r' (by decide), hne '[' (by decide),
    hne ']' (by decide), hne '\x7b' (by decide), hne '\x7d' (by decide), hne ',' (by decide), hne ':' (by decide)]

/-! ## Spelling -/

/-- A text spells tokens, gaps being allowed between them. -/
inductive Spells (gaps : List Char) : List Token → List Char → Prop
  | nil : Spells gaps [] []
  | gap {c : Char} {ts : List Token} {cs : List Char} (hc : c ∈ gaps) (h : Spells gaps ts cs) : Spells gaps ts (c :: cs)
  | mark {c : Char} {t : Token} {ts : List Token} {cs : List Char} (hc : punctuation? c = some t)
      (h : Spells gaps ts cs) : Spells gaps (t :: ts) (c :: cs)
  | string (s : String) {ts : List Token} {cs : List Char} (h : Spells gaps ts cs) :
      Spells gaps (.string s :: ts) ((stringText s).toList ++ cs)
  | word {w : List Char} {ts : List Token} {cs : List Char} (hne : w ≠ []) (hw : ∀ c ∈ w, isLetter c = true)
      (hcs : Breaks cs) (h : Spells gaps ts cs) : Spells gaps (.word w :: ts) (w ++ cs)

/-- The characters of the gaps of a style. -/
def gapsOf (style : Style) : List Char := if style.multiline then ['\n', ' '] else []

theorem isSpace_of_gap {style : Style} : ∀ c ∈ gapsOf style, isSpace c = true := by
  unfold gapsOf
  split <;> simp [isSpace]

/-! ## Characters of a text -/

/-- A printable character of ASCII. -/
def Printable (c : Char) : Prop := 32 ≤ c.toNat ∧ c.toNat < 127

instance : DecidablePred Printable := fun _ => inferInstanceAs (Decidable (_ ∧ _))

theorem isLetter_printable {c : Char} (h : isLetter c = true) : Printable c := by
  obtain ⟨hlow, hhigh, -⟩ := isLetter_range h
  exact ⟨by omega, by omega⟩

/-- The marks of a text. -/
theorem mark_mem {c : Char} {t : Token} (hc : punctuation? c = some t) : c ∈ ['[', ']', '\x7b', '\x7d', ',', ':'] := by
  by_contra hnone
  simp only [List.mem_cons, List.not_mem_nil, or_false, not_or] at hnone
  simp [punctuation?, hnone] at hc

theorem hexPadded_printable {n : Nat} (hn : n < 65536) : ∀ c ∈ Text.hexPadded 4 n, Printable c := by
  have hdigit : ∀ d < 16, Printable (Nat.digitChar d) := by decide
  rw [hexPadded_four hn]
  simp only [List.forall_mem_cons, List.not_mem_nil, false_imp_iff, implies_true, and_true]
  exact ⟨hdigit _ (by omega), hdigit _ (by omega), hdigit _ (by omega), hdigit _ (by omega)⟩

theorem escapeChar_printable (c : Char) : ∀ d ∈ escapeChar c, Printable d := by
  have hvalid := toNat_valid c
  have hletter : ∀ {letter : Char}, Printable letter → ∀ d ∈ ['\\', letter], Printable d := fun h =>
    List.forall_mem_cons.2 ⟨by decide, List.forall_mem_singleton.2 h⟩
  have hunit : ∀ {n : Nat}, n < 65536 → ∀ d ∈ '\\' :: 'u' :: Text.hexPadded 4 n, Printable d := fun hn =>
    List.forall_mem_cons.2 ⟨by decide, List.forall_mem_cons.2 ⟨by decide, hexPadded_printable hn⟩⟩
  unfold escapeChar
  dsimp only
  split_ifs with h1 h2 h3 h4 h5 h6 h7 h8 h9
  · exact hletter (by decide)
  · exact hletter (by decide)
  · exact hletter (by decide)
  · exact hletter (by decide)
  · exact hletter (by decide)
  · exact hletter (by decide)
  · exact hletter (by decide)
  · exact List.forall_mem_singleton.2 h8
  · exact hunit h9
  · refine fun d hd => (List.mem_append.1 hd).elim (hunit (by omega) d) (hunit (by omega) d)

theorem stringText_printable (s : String) : ∀ c ∈ (stringText s).toList, Printable c := by
  have hquote : Printable '"' := by decide
  rw [toList_stringText]
  refine List.forall_mem_cons.2 ⟨hquote, fun c hc => ?_⟩
  rcases List.mem_append.1 hc with hc | hc
  · obtain ⟨d, -, hd⟩ := List.mem_flatMap.1 hc
    exact escapeChar_printable d c hd
  · exact List.mem_singleton.1 hc ▸ hquote

/-- Between the gaps a text is made of printable characters. -/
theorem spells_printable {gaps : List Char} {ts : List Token} {cs : List Char} (h : Spells gaps ts cs) :
    ∀ c ∈ cs, Printable c ∨ c ∈ gaps := by
  induction h with
  | nil => nofun
  | gap hc h ih => exact List.forall_mem_cons.2 ⟨.inr hc, ih⟩
  | @mark c t ts cs hc h ih =>
    refine List.forall_mem_cons.2 ⟨.inl ?_, ih⟩
    have hmarks : ∀ d ∈ ['[', ']', '\x7b', '\x7d', ',', ':'], Printable d := by simp [Printable]
    exact hmarks c (mark_mem hc)
  | string s h ih =>
    refine fun c hc => (List.mem_append.1 hc).elim (fun hc => .inl (stringText_printable s c hc)) (ih c)
  | word hne hw hcs h ih =>
    refine fun c hc => (List.mem_append.1 hc).elim (fun hc => .inl (isLetter_printable (hw c hc))) (ih c)

/-- A text without gaps begins and ends with a character that is no blank. -/
theorem spells_ends {ts : List Token} {cs : List Char} (h : Spells [] ts cs) :
    (∀ c ∈ cs.head?, c ≠ ' ') ∧ ∀ c ∈ cs.getLast?, c ≠ ' ' := by
  have hjoin : ∀ {w cs : List Char}, w ≠ [] → (∀ c ∈ w.head?, c ≠ ' ') → (∀ c ∈ w.getLast?, c ≠ ' ') →
      (∀ c ∈ cs.getLast?, c ≠ ' ') → (∀ c ∈ (w ++ cs).head?, c ≠ ' ') ∧ ∀ c ∈ (w ++ cs).getLast?, c ≠ ' ' := by
    intro w cs hne hfirst hlast hrest
    refine ⟨by rwa [List.head?_append_of_ne_nil _ hne], fun c hc => ?_⟩
    rw [List.getLast?_append] at hc
    cases hcs : cs.getLast? with
    | none => rw [hcs] at hc; exact hlast c hc
    | some d => rw [hcs] at hc; exact hrest c (hcs ▸ hc)
  induction h with
  | nil => exact ⟨nofun, nofun⟩
  | gap hc h ih => cases hc
  | @mark c t ts cs hc h ih =>
    have hmarks : ∀ d ∈ ['[', ']', '\x7b', '\x7d', ',', ':'], d ≠ ' ' := by simp
    have hne : ∀ d ∈ some c, d ≠ ' ' := fun d hd => Option.some.inj hd ▸ hmarks c (mark_mem hc)
    exact @hjoin [c] cs (List.cons_ne_nil c []) hne hne ih.2
  | string s h ih =>
    refine hjoin (by rw [toList_stringText]; exact List.cons_ne_nil _ _) ?_ ?_ ih.2 <;> rw [toList_stringText]
    · rintro c hc
      cases hc
      decide
    · rintro c hc
      rw [← List.cons_append, List.getLast?_concat] at hc
      cases hc
      decide
  | word hne hw hcs h ih =>
    have hspace : ∀ c ∈ _, c ≠ ' ' := fun c hc => (isLetter_apart (hw c hc)).2.2.2.1
    exact hjoin hne (fun c hc => hspace c (List.mem_of_mem_head? hc)) (fun c hc => hspace c (List.mem_of_getLast? hc)) ih.2

/-! ## Cutting -/

/-- The state after some characters, and the tokens found until then, the last one first. -/
def scanned (scan : Scan) (found : List Token) : List Char → Option (Scan × List Token)
  | [] => some (scan, found)
  | c :: rest => (step scan c).bind fun (next, new) => scanned next (new.reverse ++ found) rest

theorem scanned_step {scan next : Scan} {c : Char} {new : List Token} (h : step scan c = some (next, new))
    (found : List Token) (rest : List Char) : scanned scan found (c :: rest) = scanned next (new.reverse ++ found) rest := by
  rw [scanned, h]
  rfl

theorem scanned_append (rest : List Char) : ∀ (cs : List Char) (scan : Scan) (found : List Token),
    scanned scan found (cs ++ rest) = (scanned scan found cs).bind fun p => scanned p.1 p.2 rest
  | [], _, _ => rfl
  | c :: cs, scan, found => by
    rw [List.cons_append, scanned, scanned]
    cases step scan c with
    | none => rfl
    | some p => exact scanned_append rest cs p.1 _

/-- Cutting goes on from the state after the first characters. -/
theorem tokensFrom_append (rest : List Char) : ∀ (cs : List Char) (scan : Scan) (found : List Token),
    tokensFrom scan found (cs ++ rest) = (scanned scan found cs).bind fun p => tokensFrom p.1 p.2 rest
  | [], _, _ => rfl
  | c :: cs, scan, found => by
    rw [List.cons_append, tokensFrom, scanned]
    cases step scan c with
    | none => rfl
    | some p => exact tokensFrom_append rest cs p.1 _

/-! ### Strings -/

theorem punctuation?_not_string {c : Char} {s : String} : punctuation? c ≠ some (.string s) := by
  unfold punctuation?
  split_ifs <;> simp

/-- Only the end of a string gives a string, and it is followed by the space between tokens. -/
theorem between_of_string {scan next : Scan} {c : Char} {s : String} (h : step scan c = some (next, [.string s])) :
    next = .between := by
  cases scan with
  | between =>
    simp only [step, stepBetween] at h
    split_ifs at h
    · simp at h
    · simp at h
    · split at h
      · rename_i t ht
        simp only [Option.map_some, Option.toList_some, Option.some.injEq, Prod.mk.injEq, List.cons.injEq, and_true] at h
        exact absurd (h.2 ▸ ht) punctuation?_not_string
      · simp at h
  | word read =>
    simp only [step] at h
    split_ifs at h
    · simp only [Option.map_eq_some_iff, Prod.mk.injEq, List.cons.injEq] at h
      obtain ⟨_, -, -, hword, -⟩ := h
      cases hword
    · simp at h
  | string read high =>
    simp only [step] at h
    split_ifs at h
    · simp only [Option.some.injEq, Prod.mk.injEq] at h
      exact h.1.symm
    · simp at h
    · simp at h
  | escape read high =>
    simp only [step] at h
    split_ifs at h
    · simp at h
    · simp only [Option.map_eq_some_iff, Prod.mk.injEq] at h
      obtain ⟨_, -, -, hnone⟩ := h
      cases hnone
  | unit read high digits value =>
    simp only [step, Option.map_eq_some_iff] at h
    obtain ⟨_, -, h⟩ := h
    split_ifs at h <;> simp at h

/-- A string that reads back is cut off as one token. -/
theorem scanned_string {s : String} {found : List Token} : ∀ {cs : List Char} {scan : Scan},
    stringFrom scan cs = some (s, []) → scanned scan found cs = some (.between, .string s :: found)
  | [], _, h => by cases h
  | c :: cs, scan, h => by
    rw [stringFrom] at h
    split at h
    · rename_i next s' hstep
      cases h
      rw [scanned_step hstep, between_of_string hstep]
      rfl
    · rename_i next hstep
      rw [scanned_step hstep]
      exact scanned_string h
    · cases h

theorem scanned_stringText (s : String) (found : List Token) :
    scanned .between found (stringText s).toList = some (.between, .string s :: found) := by
  have hread := stringFrom_stringText s []
  rw [List.append_nil, toList_stringText] at hread
  have hquote : step .between '"' = some (.string [] none, []) := rfl
  rw [toList_stringText, scanned_step hquote]
  exact scanned_string hread

/-! ### Words and marks -/

theorem step_space {c : Char} (hc : isSpace c = true) : step .between c = some (.between, []) := by
  simp [step, stepBetween, hc]

theorem step_mark {c : Char} {t : Token} (hc : punctuation? c = some t) : step .between c = some (.between, [t]) := by
  have hmark := mark_mem hc
  simp only [List.mem_cons, List.not_mem_nil, or_false] at hmark
  rcases hmark with rfl | rfl | rfl | rfl | rfl | rfl <;> cases hc <;> rfl

theorem step_letter {c : Char} (hc : isLetter c = true) : step .between c = some (.word [c], []) := by
  obtain ⟨hbreak, hquote, -⟩ := isLetter_apart hc
  simp only [isBreak, Bool.or_eq_false_iff, Option.isSome_eq_false_iff, Option.isNone_iff_eq_none] at hbreak
  simp [step, stepBetween, hbreak, hquote]

/-- Inside a word everything but a break belongs to it. -/
theorem step_word {c : Char} (hc : isBreak c = false) (read : List Char) :
    step (.word read) c = some (.word (c :: read), []) := by
  have hbreak : ¬ (isSpace c = true ∨ (punctuation? c).isSome = true) := by simpa [isBreak] using hc
  simp only [step, if_neg hbreak]

/-- A break ends a word, and is then read as between tokens. -/
theorem step_break {c : Char} (hc : isBreak c = true) (read : List Char) : ∃ next t,
    step (.word read) c = some (next, .word read.reverse :: t) ∧ step .between c = some (next, t) := by
  have hbreak : isSpace c = true ∨ (punctuation? c).isSome = true := by simpa [isBreak] using hc
  obtain ⟨next, t, hstep⟩ : ∃ next t, stepBetween c = some (next, t) := by
    unfold stepBetween
    split_ifs
    · exact ⟨_, _, rfl⟩
    · exact ⟨_, _, rfl⟩
    · split <;> exact ⟨_, _, rfl⟩
  exact ⟨next, t.toList, by simp only [step, if_pos hbreak, hstep, Option.map_some],
    by simp only [step, hstep, Option.map_some]⟩

theorem scanned_letters {found : List Token} : ∀ {w read : List Char}, (∀ c ∈ w, isLetter c = true) →
    scanned (.word read) found w = some (.word (w.reverse ++ read), found)
  | [], _, _ => rfl
  | c :: w, read, hw => by
    obtain ⟨hc, hw⟩ := List.forall_mem_cons.1 hw
    rw [scanned_step (step_word (isLetter_apart hc).1 read), List.reverse_nil, List.nil_append, scanned_letters hw,
      List.reverse_cons, List.append_assoc]
    rfl

theorem scanned_word {w : List Char} (hne : w ≠ []) (hw : ∀ c ∈ w, isLetter c = true) (found : List Token) :
    scanned .between found w = some (.word w.reverse, found) := by
  obtain ⟨c, w, rfl⟩ := List.exists_cons_of_ne_nil hne
  obtain ⟨hc, hw⟩ := List.forall_mem_cons.1 hw
  rw [scanned_step (step_letter hc), List.reverse_nil, List.nil_append, scanned_letters hw, List.reverse_cons]

theorem scanned_break {c : Char} (hc : isBreak c = true) (read rest : List Char) (found : List Token) :
    scanned (.word read) found (c :: rest) = scanned .between (.word read.reverse :: found) (c :: rest) := by
  obtain ⟨next, t, hword, hbetween⟩ := step_break hc read
  rw [scanned_step hword, scanned_step hbetween, List.reverse_cons, List.append_assoc]
  rfl

theorem tokensFrom_break {rest : List Char} (hrest : Breaks rest) (read : List Char) (found : List Token) :
    tokensFrom (.word read) found rest = tokensFrom .between (.word read.reverse :: found) rest := by
  cases rest with
  | nil => rfl
  | cons c rest =>
    obtain ⟨next, t, hword, hbetween⟩ := step_break (hrest c rfl) read
    rw [tokensFrom, tokensFrom, hword, hbetween]
    simp only [List.reverse_cons, List.append_assoc, List.singleton_append]

/-! ### Texts -/

/-- A text is cut into the tokens that it spells. -/
theorem tokensFrom_spells {gaps : List Char} (hgaps : ∀ c ∈ gaps, isSpace c = true) {ts : List Token} {cs : List Char}
    (h : Spells gaps ts cs) : ∀ found, tokensFrom .between found cs = some (found.reverse ++ ts) := by
  have hnext : ∀ (found ts : List Token) (t : Token), (t :: found).reverse ++ ts = found.reverse ++ t :: ts := by
    intro found ts t
    rw [List.reverse_cons, List.append_assoc]
    rfl
  induction h with
  | nil => intro found; rw [List.append_nil]; rfl
  | gap hc h ih =>
    intro found
    rw [tokensFrom, step_space (hgaps _ hc)]
    exact ih found
  | @mark c t ts cs hc h ih =>
    intro found
    rw [tokensFrom, step_mark hc]
    exact (ih (t :: found)).trans (by rw [hnext])
  | string s h ih =>
    intro found
    rw [tokensFrom_append, scanned_stringText]
    exact (ih (.string s :: found)).trans (by rw [hnext])
  | @word w ts cs hne hw hcs h ih =>
    intro found
    rw [tokensFrom_append, scanned_word hne hw]
    show tokensFrom (.word w.reverse) found cs = _
    rw [tokensFrom_break hcs, List.reverse_reverse, ih, hnext]

end StrategyLab.Json
