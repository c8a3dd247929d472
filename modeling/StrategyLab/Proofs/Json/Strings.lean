/-
Strings read back as they were written (`stringFrom_stringText`), also those with characters beyond
ASCII, which are written in units of sixteen bits. Hence no string begins another one
(`stringText_prefix`).
-/
import Mathlib.Tactic
import StrategyLab.Json.Printer
import StrategyLab.Json.Token

namespace StrategyLab.Json

/-- The string that an automaton inside of one comes to, and the characters after it. -/
def stringFrom (scan : Scan) : List Char → Option (String × List Char)
  | [] => none
  | c :: rest =>
    match step scan c with
    | some (_, [.string s]) => some (s, rest)
    | some (next, []) => stringFrom next rest
    | _ => none

theorem stringFrom_step {scan next : Scan} {c : Char} (h : step scan c = some (next, [])) (rest : List Char) :
    stringFrom scan (c :: rest) = stringFrom next rest := by
  rw [stringFrom, h]

/-! ## Units of sixteen bits -/

theorem hexDigit?_digitChar : ∀ d < 16, hexDigit? (Nat.digitChar d) = some d := by decide

theorem hexPadded_four {n : Nat} (hn : n < 65536) : Text.hexPadded 4 n =
    [Nat.digitChar (n / 4096), Nat.digitChar (n / 256 % 16), Nat.digitChar (n / 16 % 16), Nat.digitChar (n % 16)] := by
  have hsplit : ∀ m, 16 ≤ m → Nat.toDigits 16 m = Nat.toDigits 16 (m / 16) ++ [Nat.digitChar (m % 16)] :=
    fun m hm => Nat.toDigits_of_base_le (by norm_num) hm
  have hlast : ∀ m, m < 16 → Nat.toDigits 16 m = [Nat.digitChar m] := fun m hm => Nat.toDigits_of_lt_base hm
  unfold Text.hexPadded
  by_cases h1 : n < 16
  · rw [hlast n h1]
    simp [Nat.div_eq_of_lt h1, Nat.mod_eq_of_lt h1, show n / 4096 = 0 by omega, show n / 256 = 0 by omega]
  by_cases h2 : n < 256
  · rw [hsplit n (by omega), hlast (n / 16) (by omega)]
    simp [show n / 4096 = 0 by omega, show n / 256 = 0 by omega, show n / 16 % 16 = n / 16 by omega]
  by_cases h3 : n < 4096
  · rw [hsplit n (by omega), hsplit (n / 16) (by omega), hlast (n / 16 / 16) (by omega)]
    simp [show n / 4096 = 0 by omega, show n / 16 / 16 = n / 256 by omega, show n / 256 % 16 = n / 256 by omega]
  · rw [hsplit n (by omega), hsplit (n / 16) (by omega), hsplit (n / 16 / 16) (by omega),
      hlast (n / 16 / 16 / 16) (by omega)]
    simp [show n / 16 / 16 = n / 256 by omega, show n / 256 / 16 = n / 4096 by omega]

theorem step_unit {read : List Char} {high : Option Nat} {value d : Nat} (hd : d < 16) :
    step (.unit read high 1 value) (Nat.digitChar d) = some (withUnit read high (16 * value + d), []) ∧
      ∀ digits, step (.unit read high (digits + 2) value) (Nat.digitChar d) =
        some (.unit read high (digits + 1) (16 * value + d), []) := by
  simp only [step, hexDigit?_digitChar d hd, Option.map_some]
  exact ⟨rfl, fun digits => rfl⟩

/-- A unit reads back as its number. -/
theorem stringFrom_unit {read : List Char} {high : Option Nat} {n : Nat} (hn : n < 65536) (rest : List Char) :
    stringFrom (.string read high) ('\\' :: 'u' :: Text.hexPadded 4 n ++ rest) = stringFrom (withUnit read high n) rest := by
  have hbackslash : step (.string read high) '\\' = some (.escape read high, []) := rfl
  have hu : step (.escape read high) 'u' = some (.unit read high 4 0, []) := rfl
  rw [hexPadded_four hn, List.cons_append, stringFrom_step hbackslash, List.cons_append, stringFrom_step hu]
  simp only [List.cons_append, List.nil_append]
  rw [stringFrom_step ((step_unit (by omega)).2 2), stringFrom_step ((step_unit (by omega)).2 1),
    stringFrom_step ((step_unit (by omega)).2 0), stringFrom_step (step_unit (by omega)).1]
  congr 2
  omega

/-! ## Characters -/

theorem toNat_valid (c : Char) : c.toNat < 0xD800 ∨ 0xDFFF < c.toNat ∧ c.toNat < 0x110000 := by
  have := c.valid
  exact this

/-- An escape letter reads back as what it stands for. -/
theorem stringFrom_escape (read : List Char) {letter c : Char} (hletter : letter ≠ 'u')
    (h : unescape? letter = some c) (rest : List Char) :
    stringFrom (.string read none) ('\\' :: letter :: rest) = stringFrom (.string (c :: read) none) rest := by
  have hbackslash : step (.string read none) '\\' = some (.escape read none, []) := rfl
  have hescape : step (.escape read none) letter = some (.string (c :: read) none, []) := by
    simp only [step, if_neg hletter, h, Option.map_some]
    rfl
  rw [stringFrom_step hbackslash, stringFrom_step hescape]

theorem stringFrom_escapeChar (read : List Char) (c : Char) (rest : List Char) :
    stringFrom (.string read none) (escapeChar c ++ rest) = stringFrom (.string (c :: read) none) rest := by
  have hvalid := toNat_valid c
  unfold escapeChar
  dsimp only
  split_ifs with h1 h2 h3 h4 h5 h6 h7 h8 h9
  · exact stringFrom_escape read (by decide) (by rw [h1]; rfl) rest
  · exact stringFrom_escape read (by decide) (by rw [h2]; rfl) rest
  · exact stringFrom_escape read (by decide) (by rw [h3]; rfl) rest
  · exact stringFrom_escape read (by decide) (by rw [h4]; rfl) rest
  · exact stringFrom_escape read (by decide) (by rw [h5]; rfl) rest
  · exact stringFrom_escape read (by decide) (by rw [← Char.ofNat_toNat c, h6]; rfl) rest
  · exact stringFrom_escape read (by decide) (by rw [← Char.ofNat_toNat c, h7]; rfl) rest
  · refine stringFrom_step ?_ rest
    simp only [step, if_neg h1, if_neg h2, if_neg (show ¬ c.toNat < 32 by omega)]
    rfl
  · rw [stringFrom_unit h9]
    unfold withUnit
    rw [if_neg (by omega), if_neg (by omega), Char.ofNat_toNat]
    rfl
  · -- two halves are joined
    have hhigh : withUnit read none (0xD800 + (c.toNat - 0x10000) / 0x400) =
        .string read (some (0xD800 + (c.toNat - 0x10000) / 0x400)) := by
      unfold withUnit
      rw [if_neg (by omega), if_pos (by omega)]
      rfl
    have hjoined : 0x10000 + (0xD800 + (c.toNat - 0x10000) / 0x400 - 0xD800) * 0x400 +
        (0xDC00 + (c.toNat - 0x10000) % 0x400 - 0xDC00) = c.toNat := by omega
    rw [List.append_assoc, stringFrom_unit (by omega), hhigh, stringFrom_unit (by omega)]
    unfold withUnit
    rw [if_pos (by omega)]
    dsimp only
    rw [hjoined, Char.ofNat_toNat]

/-! ## Strings -/

theorem stringFrom_written (cs : List Char) : ∀ (read : List Char) (rest : List Char),
    stringFrom (.string read none) (cs.flatMap escapeChar ++ '"' :: rest) =
      some (String.ofList (read.reverse ++ cs), rest) := by
  induction cs with
  | nil =>
    intro read rest
    rw [List.append_nil]
    rfl
  | cons c cs ih =>
    intro read rest
    rw [List.flatMap_cons, List.append_assoc, stringFrom_escapeChar, ih, List.reverse_cons, List.append_assoc]
    rfl

theorem toList_stringText (s : String) : (stringText s).toList = '"' :: (s.toList.flatMap escapeChar ++ ['"']) :=
  String.toList_ofList

/-- A string reads back as it was written. -/
theorem stringFrom_stringText (s : String) (rest : List Char) :
    stringFrom (.string [] none) (((stringText s).toList ++ rest).tail) = some (s, rest) := by
  rw [toList_stringText, List.cons_append, List.tail_cons, List.append_assoc, List.singleton_append,
    stringFrom_written, List.reverse_nil, List.nil_append, String.ofList_toList]

/-- A text that begins with a string begins with no other one. -/
theorem stringText_prefix {s s' : String} {rest rest' : List Char}
    (h : (stringText s).toList ++ rest = (stringText s').toList ++ rest') : s = s' ∧ rest = rest' := by
  have hread := stringFrom_stringText s rest
  rw [h, stringFrom_stringText s' rest'] at hread
  cases hread
  exact ⟨rfl, rfl⟩

end StrategyLab.Json
