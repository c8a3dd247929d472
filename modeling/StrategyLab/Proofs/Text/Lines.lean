/-
Texts that are put together from parts, and the parts that are found in them again. The lines of parts
that each end their last line are the lines of the whole (`linesOf_append`); pieces without a separator
come back from the text that joins them with it (`splitOn_intercalate`), and words from the text that
has blanks between them (`wordsFrom_word`, `wordsFrom_last`).
-/
import Mathlib.Data.List.DropRight
import Mathlib.Tactic
import StrategyLab.Text.Pieces

namespace StrategyLab.Text

/-! ## Line ends -/

theorem unifyLineEnds_cons {c : Char} {rest : List Char} (hc : c ≠ '\r') :
    unifyLineEnds (c :: rest) = c :: unifyLineEnds rest := by
  rw [unifyLineEnds]
  · rintro _ rfl
    exact absurd rfl hc
  · rintro rfl
    exact absurd rfl hc

theorem unifyLineEnds_plain : ∀ {cs : List Char}, '\r' ∉ cs → unifyLineEnds cs = cs
  | [], _ => rfl
  | c :: rest, h => by
    rw [List.mem_cons, not_or] at h
    rw [unifyLineEnds_cons (Ne.symm h.1), unifyLineEnds_plain h.2]

/-- A line feed at the end of a text stays one, and what follows it is read on its own. -/
theorem unifyLineEnds_line (cs : List Char) : ∃ ds, ∀ rest,
    unifyLineEnds (cs ++ '\n' :: rest) = ds ++ '\n' :: unifyLineEnds rest := by
  induction cs using unifyLineEnds.induct with
  | case1 => exact ⟨[], fun rest => unifyLineEnds_cons (by decide)⟩
  | case2 cs ih =>
    obtain ⟨ds, h⟩ := ih
    exact ⟨'\n' :: ds, fun rest => by rw [List.cons_append, List.cons_append, unifyLineEnds, h, List.cons_append]⟩
  | case3 cs hother ih =>
    obtain ⟨ds, h⟩ := ih
    cases cs with
    | nil => exact ⟨[], fun rest => by rw [List.singleton_append, unifyLineEnds, List.nil_append]⟩
    | cons c cs =>
      refine ⟨'\n' :: ds, fun rest => ?_⟩
      rw [List.cons_append, unifyLineEnds, h, List.cons_append]
      rintro _ heq
      exact hother cs (by rw [(List.cons.inj heq).1])
  | case4 c cs hcrlf hcr ih =>
    obtain ⟨ds, h⟩ := ih
    exact ⟨c :: ds, fun rest => by rw [List.cons_append, unifyLineEnds_cons hcr, h, List.cons_append]⟩

/-! ## Lines -/

theorem linesFrom_line (rest : List Char) : ∀ (cs line : List Char),
    linesFrom line (cs ++ '\n' :: rest) = linesFrom line (cs ++ ['\n']) ++ linesFrom [] rest
  | [], line => rfl
  | c :: cs, line => by
    rw [List.cons_append, List.cons_append, linesFrom, linesFrom, linesFrom_line rest cs, linesFrom_line rest cs]
    split <;> rfl

theorem linesFrom_single : ∀ {cs line : List Char}, '\n' ∉ cs → linesFrom line (cs ++ ['\n']) = [line.reverse ++ cs]
  | [], line, _ => by rw [List.append_nil]; rfl
  | c :: cs, line, h => by
    rw [List.mem_cons, not_or] at h
    rw [List.cons_append, linesFrom, if_neg (Ne.symm h.1), linesFrom_single h.2, List.reverse_cons, List.append_assoc]
    rfl

/-- The lines of a text with line ends of any kind. -/
def linesOf (s : String) : List String := lines (String.ofList (unifyLineEnds s.toList))

/-- The last line of a text is ended. -/
def Ended (s : String) : Prop := ∃ cs, s.toList = cs ++ ['\n']

theorem linesOf_empty : linesOf "" = [] := rfl

/-- After an ended text another one has its own lines. -/
theorem linesOf_append {s : String} (h : Ended s) (t : String) : linesOf (s ++ t) = linesOf s ++ linesOf t := by
  obtain ⟨cs, hs⟩ := h
  obtain ⟨ds, hunify⟩ := unifyLineEnds_line cs
  unfold linesOf lines
  rw [String.toList_append, hs, List.append_assoc, List.singleton_append, hunify, hunify, String.toList_ofList,
    String.toList_ofList, String.toList_ofList, linesFrom_line, List.map_append]
  rfl

theorem Ended.append {s t : String} (h : Ended t) : Ended (s ++ t) := by
  obtain ⟨cs, ht⟩ := h
  exact ⟨s.toList ++ cs, by rw [String.toList_append, ht, List.append_assoc]⟩

theorem ended_line (s : String) : Ended (s ++ "\n") := ⟨s.toList, by rw [String.toList_append]; rfl⟩

/-- A text of one line. -/
theorem linesOf_line {s : String} (hfeed : '\n' ∉ s.toList) (hreturn : '\r' ∉ s.toList) : linesOf (s ++ "\n") = [s] := by
  have hplain : '\r' ∉ s.toList ++ ['\n'] := by
    rw [List.mem_append, not_or]
    exact ⟨hreturn, by decide⟩
  unfold linesOf lines
  rw [String.toList_append, show ("\n" : String).toList = ['\n'] from rfl, unifyLineEnds_plain hplain,
    String.toList_ofList, linesFrom_single hfeed]
  simp

theorem linesFrom_rest : ∀ {cs line : List Char}, '\n' ∉ cs → line ++ cs ≠ [] → linesFrom line cs = [line.reverse ++ cs]
  | [], line, _, hne => by
    rw [List.append_nil] at hne ⊢
    rw [linesFrom, if_neg (by simpa using hne)]
  | c :: cs, line, h, _ => by
    rw [List.mem_cons, not_or] at h
    rw [linesFrom, if_neg (Ne.symm h.1), linesFrom_rest h.2 (List.cons_ne_nil c _), List.reverse_cons, List.append_assoc]
    rfl

/-- A text of one line that is not ended. -/
theorem linesOf_rest {s : String} (hfeed : '\n' ∉ s.toList) (hreturn : '\r' ∉ s.toList) (hne : s.toList ≠ []) :
    linesOf s = [s] := by
  unfold linesOf lines
  rw [unifyLineEnds_plain hreturn, String.toList_ofList, linesFrom_rest hfeed hne]
  simp

/-! ## Blanks -/

/-- Characters without blanks on either side are left as they are. -/
theorem trimChars_eq {cs : List Char} (hfirst : ∀ c ∈ cs.head?, isBlank c = false)
    (hlast : ∀ c ∈ cs.getLast?, isBlank c = false) : trimChars cs = cs := by
  have hdrop : ∀ {cs : List Char}, (∀ c ∈ cs.head?, isBlank c = false) → cs.dropWhile isBlank = cs := by
    intro cs h
    cases cs with
    | nil => rfl
    | cons c cs => rw [List.dropWhile_cons, if_neg (by rw [h c rfl]; decide)]
  unfold trimChars
  rw [hdrop hfirst, hdrop (by rwa [List.head?_reverse]), List.reverse_reverse]

/-- A text without blanks on either side is left as it is. -/
theorem trim_eq {s : String} (hfirst : ∀ c ∈ s.toList.head?, isBlank c = false)
    (hlast : ∀ c ∈ s.toList.getLast?, isBlank c = false) : trim s = s := by
  unfold trim
  rw [trimChars_eq hfirst hlast, String.ofList_toList]

/-- Of a text that begins with no blank a beginning is left. -/
theorem trim_prefix {c : Char} {cs : List Char} (hc : isBlank c = false) : ∃ left, trim (String.ofList (c :: cs)) = String.ofList left ∧
    left <+: c :: cs ∧ left ≠ [] := by
  refine ⟨(c :: cs).rdropWhile isBlank, ?_, List.rdropWhile_prefix isBlank _, fun hnil => ?_⟩
  · unfold trim trimChars
    rw [String.toList_ofList, List.dropWhile_cons, if_neg (by rw [hc]; decide)]
    rfl
  · have hblank := List.rdropWhile_eq_nil_iff.1 hnil c List.mem_cons_self
    rw [hc] at hblank
    cases hblank

/-! ## Words -/

/-- What has blanks and nothing else. -/
def Blank (cs : List Char) : Prop := ∀ c ∈ cs, isBlank c = true

/-- Characters of which none is a blank. -/
def Solid (cs : List Char) : Prop := ∀ c ∈ cs, isBlank c = false

/-- Characters without a blank go on with the word that is being read. -/
theorem wordsFrom_solid {cs : List Char} (h : Solid cs) (word rest : List Char) :
    wordsFrom word (cs ++ rest) = wordsFrom (cs.reverse ++ word) rest := by
  induction cs generalizing word with
  | nil => rfl
  | cons c cs ih =>
    obtain ⟨hc, hcs⟩ := List.forall_mem_cons.1 h
    rw [List.cons_append, wordsFrom, if_neg (by rw [hc]; decide), ih hcs]
    simp

/-- Blanks before a word belong to none. -/
theorem wordsFrom_blank {gap : List Char} (h : Blank gap) (rest : List Char) :
    wordsFrom [] (gap ++ rest) = wordsFrom [] rest := by
  induction gap with
  | nil => rfl
  | cons c gap ih =>
    obtain ⟨hc, hgap⟩ := List.forall_mem_cons.1 h
    rw [List.cons_append, wordsFrom, if_pos hc]
    exact ih hgap

/-- A word with blanks after it is the first one. -/
theorem wordsFrom_word {word gap : List Char} (hword : Solid word) (hne : word ≠ []) (hgap : Blank gap)
    (hapart : gap ≠ []) (rest : List Char) : wordsFrom [] (word ++ (gap ++ rest)) = word :: wordsFrom [] rest := by
  obtain ⟨c, gap, rfl⟩ := List.exists_cons_of_ne_nil hapart
  obtain ⟨hc, hgap⟩ := List.forall_mem_cons.1 hgap
  rw [wordsFrom_solid hword, List.cons_append, wordsFrom, if_pos hc, if_neg (by simpa using hne), wordsFrom_blank hgap]
  simp

/-- A word with nothing but blanks after it is the only one. -/
theorem wordsFrom_last {word gap : List Char} (hword : Solid word) (hne : word ≠ []) (hgap : Blank gap) :
    wordsFrom [] (word ++ gap) = [word] := by
  cases gap with
  | nil =>
    rw [wordsFrom_solid hword, wordsFrom, if_neg (by simpa using hne)]
    simp
  | cons c gap =>
    have h := wordsFrom_word hword hne hgap (List.cons_ne_nil c gap) []
    rwa [List.append_nil] at h

/-! ## Pieces -/

/-- The first separator is where a text is cut. -/
theorem cutAt?_append {sep : Char} {before : List Char} (h : sep ∉ before) (after : List Char) :
    cutAt? sep (before ++ sep :: after) = some (before, after) := by
  induction before with
  | nil => simp [cutAt?]
  | cons c before ih =>
    rw [List.mem_cons, not_or] at h
    rw [List.cons_append, cutAt?, if_neg (Ne.symm h.1), ih h.2]
    rfl

theorem cutAt?_eq_none {sep : Char} {cs : List Char} (h : sep ∉ cs) : cutAt? sep cs = none := by
  induction cs with
  | nil => rfl
  | cons c cs ih =>
    rw [List.mem_cons, not_or] at h
    rw [cutAt?, if_neg (Ne.symm h.1), ih h.2]
    rfl

theorem splitOn_single {sep : Char} {piece : List Char} (h : sep ∉ piece) : splitOn sep piece = [piece] := by
  induction piece with
  | nil => rfl
  | cons c piece ih =>
    rw [List.mem_cons, not_or] at h
    rw [splitOn, if_neg (Ne.symm h.1), ih h.2]

theorem splitOn_append {sep : Char} {piece : List Char} (h : sep ∉ piece) (rest : List Char) :
    splitOn sep (piece ++ sep :: rest) = piece :: splitOn sep rest := by
  induction piece with
  | nil => simp [splitOn]
  | cons c piece ih =>
    rw [List.mem_cons, not_or] at h
    rw [List.cons_append, splitOn, if_neg (Ne.symm h.1), ih h.2]

/-- Pieces without the separator come back from the text that joins them. -/
theorem splitOn_intercalate {sep : Char} : ∀ {pieces : List (List Char)}, (∀ piece ∈ pieces, sep ∉ piece) →
    pieces ≠ [] → splitOn sep ([sep].intercalate pieces) = pieces
  | [piece], h, _ => by
    rw [List.intercalate_singleton]
    exact splitOn_single (h piece List.mem_cons_self)
  | piece :: next :: rest, h, _ => by
    obtain ⟨hpiece, hrest⟩ := List.forall_mem_cons.1 h
    rw [List.intercalate_cons_cons, List.append_assoc, List.singleton_append, splitOn_append hpiece,
      splitOn_intercalate hrest (List.cons_ne_nil next rest)]

end StrategyLab.Text
