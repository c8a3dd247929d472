/-
Numbers in JSON text: a whole number reads back (`number?_whole`), and whatever is a number is made of
letters (`number?_letters`), so that no quote and no backslash stands in one.
-/
import Mathlib.Data.List.TakeWhile
import StrategyLab.Json.Reader
import StrategyLab.Proofs.Json.Spelling

namespace StrategyLab.Json

variable {α : Type} [Scalar α]

theorem digitRun_all {ds : List Char} (h : ∀ c ∈ ds, c.isDigit = true) : digitRun ds = (ds, []) := by
  unfold digitRun
  rw [List.span_eq_takeWhile_dropWhile, List.takeWhile_eq_self_iff.2 h, List.dropWhile_eq_nil_iff.2 h]

theorem digitRun_spec (cs : List Char) : cs = (digitRun cs).1 ++ (digitRun cs).2 ∧
    ∀ c ∈ (digitRun cs).1, c.isDigit = true := by
  unfold digitRun
  rw [List.span_eq_takeWhile_dropWhile]
  exact ⟨(List.takeWhile_append_dropWhile ..).symm, fun c hc => List.mem_takeWhile_imp hc⟩

/-! ## Whole numbers -/

/-- Digits without a leading zero are a whole number, also after a minus. -/
theorem number?_digits {ds : List Char} (hne : ds ≠ []) (hds : ∀ c ∈ ds, c.isDigit = true)
    (hzero : ds.head? = some '0' → ds.length = 1) :
    number? (α := α) ds = some (.whole (natOf ds)) ∧ number? (α := α) ('-' :: ds) = some (.whole (-natOf ds)) := by
  have hrun := digitRun_all hds
  obtain ⟨c, rest, rfl⟩ := List.exists_cons_of_ne_nil hne
  have hc : c ≠ '-' := by
    rintro rfl
    exact absurd (hds _ List.mem_cons_self) (by decide)
  have hlead : c = '0' → rest = [] := by
    rintro rfl
    simpa using hzero rfl
  constructor
  · simpa [number?, hrun, hc] using hlead
  · simpa [number?, hrun] using hlead

theorem toDigits_head {n : Nat} (hn : 0 < n) : (Nat.toDigits 10 n).head? ≠ some '0' := by
  induction n using Nat.strong_induction_on with
  | _ n ih =>
    rcases lt_or_ge n 10 with hlt | hge
    · rw [Nat.toDigits_of_lt_base hlt, List.head?_cons]
      interval_cases n <;> decide
    · rw [Nat.toDigits_of_base_le (by norm_num) hge, List.head?_append_of_ne_nil _ Nat.toDigits_ne_nil]
      exact ih (n / 10) (by omega) (by omega)

/-- The digits of a whole number read back. -/
theorem number?_toDigits (n : Nat) : number? (α := α) (Nat.toDigits 10 n) = some (.whole n) ∧
    number? (α := α) ('-' :: Nat.toDigits 10 n) = some (.whole (-n)) := by
  have hvalue : natOf (Nat.toDigits 10 n) = n := Nat.ofDigitChars_toDigits (by norm_num) le_rfl
  have hread := @number?_digits α _ (Nat.toDigits 10 n) Nat.toDigits_ne_nil
    (fun c hc => Nat.isDigit_of_mem_toDigits (by norm_num) le_rfl hc) fun hzero => by
      rcases Nat.eq_zero_or_pos n with rfl | hpos
      · rfl
      · exact absurd hzero (toDigits_head hpos)
  rwa [hvalue] at hread

theorem number?_whole (n : Int) : number? (α := α) (toString n).toList = some (.whole n) := by
  rw [Int.toString_eq_repr, Int.repr_eq_if]
  split
  · rename_i hn
    rw [Nat.toList_repr, (number?_toDigits _).1, Int.toNat_of_nonneg hn]
  · rename_i hn
    rw [String.toList_append, Nat.toList_repr]
    refine (number?_toDigits (-n).toNat).2.trans ?_
    rw [Int.toNat_of_nonneg (by omega), neg_neg]

/-! ## Letters of numbers -/

/-- The characters after a minus, if there is one. -/
inductive Unsigned : List Char → List Char → Prop
  | minus (rest : List Char) : Unsigned ('-' :: rest) rest
  | plain {cs : List Char} (h : cs.head? ≠ some '-') : Unsigned cs cs

/-- The characters after a point and digits, if there is one. -/
inductive Unpointed : List Char → List Char → Prop
  | point (more : List Char) : Unpointed ('.' :: more) (digitRun more).2
  | plain {cs : List Char} (h : cs.head? ≠ some '.') : Unpointed cs cs

/-- What follows the digits and the fraction of a number is an exponent. -/
theorem number?_none {cs rest tail : List Char} {c : Char} (hsign : Unsigned cs rest)
    (hpoint : Unpointed (digitRun rest).2 (c :: tail))
    (hbad : c = 'e' ∨ c = 'E' → ∃ d ∈ (Numeral.signed tail).2, d.isDigit = false) : number? (α := α) cs = none := by
  generalize hmore : (digitRun rest).2 = more at hpoint
  generalize hend : c :: tail = ending at hpoint
  cases hsign with
  | minus rest =>
    cases hpoint with
    | point more => simpa [number?, hmore, ← hend] using fun _ _ _ h _ => hbad h
    | plain h =>
      subst hend
      have hc : c ≠ '.' := by simpa using h
      simpa [number?, hmore, hc] using fun _ _ h _ => hbad h
  | plain h =>
    cases cs with
    | nil => rfl
    | cons d cs =>
      have hd : d ≠ '-' := by simpa using h
      cases hpoint with
      | point more => simpa [number?, hd, hmore, ← hend] using fun _ _ _ h _ => hbad h
      | plain h =>
        subst hend
        have hc : c ≠ '.' := by simpa using h
        simpa [number?, hd, hmore, hc] using fun _ _ h _ => hbad h

theorem isLetter_digit {c : Char} (hc : c.isDigit = true) : isLetter c = true := by
  simp [isLetter, Char.isAlphanum, hc]

/-- Digits are letters, so that what follows a run of them decides. -/
theorem letters_digitRun {cs : List Char} (h : ∀ c ∈ (digitRun cs).2, isLetter c = true) :
    ∀ c ∈ cs, isLetter c = true := by
  obtain ⟨heq, hdigits⟩ := digitRun_spec cs
  rw [heq]
  exact fun c hc => (List.mem_append.1 hc).elim (fun hc => isLetter_digit (hdigits c hc)) (h c)

theorem letters_signed {cs : List Char} (h : ∀ c ∈ (Numeral.signed cs).2, c.isDigit = true) :
    ∀ c ∈ cs, isLetter c = true := by
  unfold Numeral.signed at h
  split at h
  · exact List.forall_mem_cons.2 ⟨by decide, fun c hc => isLetter_digit (h c hc)⟩
  · exact List.forall_mem_cons.2 ⟨by decide, fun c hc => isLetter_digit (h c hc)⟩
  · exact fun c hc => isLetter_digit (h c hc)

/-- What follows the digits and the fraction of a number is nothing, or an exponent with its digits. -/
theorem letters_ending {cs rest ending : List Char} {x : Num α} (h : number? cs = some x) (hsign : Unsigned cs rest)
    (hpoint : Unpointed (digitRun rest).2 ending) : ∀ c ∈ ending, isLetter c = true := by
  cases ending with
  | nil => exact List.forall_mem_nil _
  | cons c tail =>
    by_cases hexponent : (c = 'e' ∨ c = 'E') ∧ ∀ d ∈ (Numeral.signed tail).2, d.isDigit = true
    · obtain ⟨hc, hdigits⟩ := hexponent
      refine List.forall_mem_cons.2 ⟨?_, letters_signed hdigits⟩
      rcases hc with rfl | rfl <;> decide
    · have hnone : number? (α := α) cs = none := number?_none hsign hpoint fun hc => by
        simpa [hc] using hexponent
      rw [hnone] at h
      cases h

/-- A number is made of letters. -/
theorem number?_letters {cs : List Char} {x : Num α} (h : number? cs = some x) : ∀ c ∈ cs, isLetter c = true := by
  have hpointed : ∀ {rest : List Char}, Unsigned cs rest → ∀ c ∈ rest, isLetter c = true := by
    intro rest hsign
    refine letters_digitRun ?_
    generalize hmore : (digitRun rest).2 = more
    by_cases hpoint : more.head? = some '.'
    · cases more with
      | nil => cases hpoint
      | cons c more =>
        cases hpoint
        exact List.forall_mem_cons.2 ⟨by decide, letters_digitRun (letters_ending h hsign (hmore ▸ .point more))⟩
    · subst hmore
      exact letters_ending h hsign (.plain hpoint)
  by_cases hsign : cs.head? = some '-'
  · cases cs with
    | nil => cases hsign
    | cons c rest =>
      cases hsign
      exact List.forall_mem_cons.2 ⟨by decide, hpointed (.minus rest)⟩
  · exact hpointed (.plain hsign)

/-! ## Words -/

/-- A number that reads back is none of the literals. -/
theorem word?_number {cs : List Char} {x : Num α} (h : number? cs = some x) : word? cs = some (.num x) := by
  have hword : ∀ s : String, number? (α := α) s.toList = none → String.ofList cs ≠ s := by
    rintro s hs rfl
    rw [String.toList_ofList, h] at hs
    cases hs
  unfold word?
  dsimp only
  rw [if_neg (hword _ rfl), if_neg (hword _ rfl), if_neg (hword _ rfl), if_neg (hword _ rfl), if_neg (hword _ rfl),
    if_neg (hword _ rfl), h]
  rfl

/-- The texts of finite scalars read back. -/
def Readable (α : Type) [Scalar α] : Prop :=
  ∀ x : α, Scalar.isFinite x = true → number? (Scalar.text x).toList = some (.real x)

end StrategyLab.Json
