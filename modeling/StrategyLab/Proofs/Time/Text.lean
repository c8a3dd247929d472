/-
Instants in writing: the text of an instant in range reads back as the instant (`read_text`).
-/
import Mathlib.Data.List.TakeDrop
import Mathlib.Data.List.TakeWhile
import Mathlib.Tactic
import StrategyLab.Proofs.Time.Calendar
import StrategyLab.Time.Instant

namespace StrategyLab.Instant

/-! ## Digits -/

theorem digit?_of_isDigit {c : Char} (h : c.isDigit = true) : digit? c = some (c.toNat - 48) := by
  have hrange : 48 ≤ c.val ∧ c.val ≤ 57 := by simpa [Char.isDigit] using h
  exact if_pos hrange

theorem mapM_digit? {ds : List Char} (h : ∀ c ∈ ds, c.isDigit = true) :
    ds.mapM digit? = some (ds.map fun c => c.toNat - 48) := by
  induction ds with
  | nil => rfl
  | cons c ds ih =>
    rw [List.mapM_cons, digit?_of_isDigit (h c List.mem_cons_self), ih fun d hd => h d (List.mem_cons_of_mem _ hd)]
    rfl

theorem foldl_digits (ds : List Char) (n : Nat) :
    (ds.map fun c => c.toNat - 48).foldl (fun n d => 10 * n + d) n = Nat.ofDigitChars 10 ds n := by
  rw [List.foldl_map]
  rfl

/-- Exactly as many digits as asked for read as their number. -/
theorem number?_digits {ds : List Char} (h : ∀ c ∈ ds, c.isDigit = true) (rest : List Char) :
    number? ds.length (ds ++ rest) = some (Nat.ofDigitChars 10 ds 0, rest) := by
  unfold number?
  simp only [List.take_left, List.drop_left, if_true, mapM_digit? h, Option.map_some, foldl_digits]

theorem digits_isDigit (n : Nat) : ∀ c ∈ Decimal.digits n, c.isDigit = true := fun _ hc =>
  Nat.isDigit_of_mem_toDigits (by norm_num) le_rfl hc

theorem padded_isDigit (width n : Nat) : ∀ c ∈ (padded width n).toList, c.isDigit = true := by
  intro c hc
  rw [padded, String.toList_ofList, List.mem_append] at hc
  rcases hc with hc | hc
  · rw [List.eq_of_mem_replicate hc]; rfl
  · exact digits_isDigit n c hc

theorem length_padded {width n : Nat} (hwidth : 0 < width) (hn : n < 10 ^ width) : (padded width n).toList.length = width := by
  have hlength : (Decimal.digits n).length ≤ width := (Nat.length_toDigits_le_iff (by norm_num) hwidth).2 hn
  rw [padded, String.toList_ofList, List.length_append, List.length_replicate]
  omega

theorem ofDigitChars_zeros (k : Nat) (ds : List Char) :
    Nat.ofDigitChars 10 (List.replicate k '0' ++ ds) 0 = Nat.ofDigitChars 10 ds 0 := by
  induction k with
  | zero => rfl
  | succ k ih => exact ih

theorem ofDigitChars_padded (width n : Nat) : Nat.ofDigitChars 10 (padded width n).toList 0 = n := by
  rw [padded, String.toList_ofList, ofDigitChars_zeros]
  exact Nat.ofDigitChars_toDigits (by norm_num) le_rfl

/-- A number filled with zeros reads back. -/
theorem number?_padded {width n : Nat} (hwidth : 0 < width) (hn : n < 10 ^ width) (rest : List Char) :
    number? width ((padded width n).toList ++ rest) = some (n, rest) := by
  have h := number?_digits (padded_isDigit width n) rest
  rw [length_padded hwidth hn, ofDigitChars_padded] at h
  exact h

theorem number?_none {count : Nat} (hcount : 0 < count) {c : Char} (hc : digit? c = none) (rest : List Char) :
    number? count (c :: rest) = none := by
  obtain ⟨k, rfl⟩ : ∃ k, count = k + 1 := ⟨count - 1, by omega⟩
  unfold number?
  rw [List.take_succ_cons]
  dsimp only
  split
  · rw [List.mapM_cons, hc]
    rfl
  · rfl

/-! ## Dates -/

theorem date?_written {year month day : Nat} (hyear : year < 10000) (hmonth : month < 100) (hday : day < 100)
    (rest : List Char) : date? ((padded 4 year).toList ++ '-' :: ((padded 2 month).toList ++
      '-' :: ((padded 2 day).toList ++ rest))) = some ({ year, month, day }, rest) := by
  unfold date?
  rw [number?_padded (by norm_num) hyear]
  simp only [Option.bind_eq_bind, Option.bind_some]
  rw [number?_none (by norm_num) (by decide)]
  simp only [number?_padded (Nat.zero_lt_succ 1) hmonth, number?_padded (Nat.zero_lt_succ 1) hday, Option.bind_some]
  rfl

/-! ## Times of day -/

/-- The part of a text after the whole seconds. -/
def fractionText (fraction : Nat) : String :=
  if fraction = 0 then ""
  else if fraction % 1000 = 0 then "." ++ padded 6 (fraction / 1000)
  else "." ++ padded 9 fraction

theorem ofDigitChars_shift (k : Nat) : ∀ n, Nat.ofDigitChars 10 (List.replicate k '0') n = n * 10 ^ k := by
  induction k with
  | zero => intro n; simp [Nat.ofDigitChars]
  | succ k ih =>
    intro n
    rw [List.replicate_succ, Nat.ofDigitChars_cons, ih, pow_succ]
    simp only [Char.reduceToNat]
    ring

/-- Digits after the point, filled up with zeros to nanoseconds. -/
theorem fraction?_digits {ds : List Char} (h : ∀ c ∈ ds, c.isDigit = true) {k : Nat} (hlength : ds.length + k = 9)
    (hk : k < 9) : fraction? ds = some (Nat.ofDigitChars 10 ds 0 * 10 ^ k, []) := by
  have hspan : ds.span (fun c => (digit? c).isSome) = (ds, []) := by
    rw [List.span_eq_takeWhile_dropWhile, List.takeWhile_eq_self_iff.2, List.dropWhile_eq_nil_iff.2] <;>
      exact fun c hc => by rw [digit?_of_isDigit (h c hc)]; rfl
  have hnine : (ds ++ List.replicate 9 '0').take 9 = ds ++ List.replicate k '0' := by
    rw [List.take_append, List.take_of_length_le (by omega), List.take_replicate]
    congr 2
    omega
  have hdigits : ∀ c ∈ ds ++ List.replicate k '0', c.isDigit = true := fun c hc => by
    rcases List.mem_append.1 hc with hc | hc
    · exact h c hc
    · rw [List.eq_of_mem_replicate hc]; rfl
  have hread := number?_digits hdigits []
  rw [List.length_append, List.length_replicate, hlength, List.append_nil, Nat.ofDigitChars_append,
    ofDigitChars_shift] at hread
  unfold fraction?
  simp only [hspan, hnine, hread, Option.map_some]
  rw [if_neg]
  cases ds with
  | nil => simp at hlength; omega
  | cons c ds => simp

theorem fraction?_written {fraction : Nat} (hfraction : fraction < 1000000000) (hzero : fraction ≠ 0) :
    ∃ cs, (fractionText fraction).toList = '.' :: cs ∧ fraction? cs = some (fraction, []) := by
  unfold fractionText
  rw [if_neg hzero]
  split_ifs with hmicro
  · have hread := fraction?_digits (padded_isDigit 6 (fraction / 1000)) (k := 3)
      (by rw [length_padded (by norm_num) (by omega)]) (by norm_num)
    rw [ofDigitChars_padded, show fraction / 1000 * 10 ^ 3 = fraction by omega] at hread
    exact ⟨_, by simp, hread⟩
  · have hread := fraction?_digits (padded_isDigit 9 fraction) (k := 0)
      (by rw [length_padded (by norm_num) (by omega)]) (by norm_num)
    rw [ofDigitChars_padded, pow_zero, mul_one] at hread
    exact ⟨_, by simp, hread⟩

theorem secondOfMinute?_written {second fraction : Nat} (hsecond : second < 60) (hfraction : fraction < 1000000000) :
    secondOfMinute? (':' :: ((padded 2 second).toList ++ (fractionText fraction).toList)) =
      some (second, fraction, []) := by
  unfold secondOfMinute?
  simp only [number?_padded (Nat.zero_lt_succ 1) (show second < 10 ^ 2 by omega), Option.bind_eq_bind, Option.bind_some]
  by_cases hzero : fraction = 0
  · rw [hzero]; rfl
  · obtain ⟨cs, htext, hread⟩ := fraction?_written hfraction hzero
    rw [htext]
    simp only [hread, Option.bind_some]

/-- A time of day to the second, the microsecond or the nanosecond. -/
theorem timeOfDay?_written {hour minute second fraction : Nat} (hhour : hour < 24) (hminute : minute < 60)
    (hsecond : second < 60) (hfraction : fraction < 1000000000) :
    timeOfDay? ((padded 2 hour).toList ++ ':' :: ((padded 2 minute).toList ++
      ':' :: ((padded 2 second).toList ++ (fractionText fraction).toList))) =
      some (Int.ofNat ((hour * 60 + minute) * 60 + second) * perSecond + Int.ofNat fraction, []) := by
  unfold timeOfDay?
  rw [number?_padded (by norm_num) (by omega)]
  simp only [Option.bind_eq_bind, Option.bind_some, number?_padded (Nat.zero_lt_succ 1) (show minute < 10 ^ 2 by omega),
    secondOfMinute?_written hsecond hfraction]
  exact if_pos ⟨hhour, hminute, hsecond⟩

/-! ## Instants -/

/-- The characters of an instant's text. -/
theorem toList_render (ns : Int) : (render "T" ns).toList =
    (padded 4 (Calendar.Date.ofDays (dayNumber ns)).year.toNat).toList ++ '-' ::
      ((padded 2 (Calendar.Date.ofDays (dayNumber ns)).month).toList ++ '-' ::
      ((padded 2 (Calendar.Date.ofDays (dayNumber ns)).day).toList ++ 'T' ::
      ((padded 2 ((ns - dayNumber ns * perDay).toNat / 1000000000 / 3600)).toList ++ ':' ::
      ((padded 2 ((ns - dayNumber ns * perDay).toNat / 1000000000 / 60 % 60)).toList ++ ':' ::
      ((padded 2 ((ns - dayNumber ns * perDay).toNat / 1000000000 % 60)).toList ++
        (fractionText ((ns - dayNumber ns * perDay).toNat % 1000000000)).toList))))) := by
  unfold render fractionText
  simp

/-- A day and a time of day make an instant. -/
theorem local?_written (ns : Int) (hyear : 1 ≤ (Calendar.Date.ofDays (dayNumber ns)).year ∧
    (Calendar.Date.ofDays (dayNumber ns)).year ≤ 9999) : local? (render "T" ns) = some (ns, none) := by
  obtain ⟨hfirst, hlast⟩ := hyear
  have hvalid := Calendar.ofDays_isValid (dayNumber ns)
  have hdays := Calendar.toDays_ofDays (dayNumber ns)
  have hmonths : (Calendar.Date.ofDays (dayNumber ns)).month < 100 ∧ (Calendar.Date.ofDays (dayNumber ns)).day < 100 := by
    unfold Calendar.Date.isValid Calendar.monthLength at hvalid
    simp only [decide_eq_true_eq] at hvalid
    split_ifs at hvalid <;> omega
  have hwithin : 0 ≤ ns - dayNumber ns * perDay ∧ ns - dayNumber ns * perDay < 86400 * 1000000000 := by
    unfold dayNumber perDay perSecond
    rw [Int.fdiv_eq_ediv_of_nonneg _ (by norm_num)]
    omega
  unfold local?
  rw [toList_render, date?_written (by omega) hmonths.1 hmonths.2]
  have hdate : ({ year := ((Calendar.Date.ofDays (dayNumber ns)).year.toNat : Int)
                  month := (Calendar.Date.ofDays (dayNumber ns)).month
                  day := (Calendar.Date.ofDays (dayNumber ns)).day } : Calendar.Date) =
      Calendar.Date.ofDays (dayNumber ns) := by
    rw [Int.toNat_of_nonneg (by omega)]
  generalize Calendar.Date.ofDays (dayNumber ns) = date at hdate hvalid hdays hfirst
  generalize hday : (ns - dayNumber ns * perDay).toNat = ofDay
  have hday' : (ofDay : Int) = ns - dayNumber ns * perDay := by omega
  have hless : ofDay < 86400 * 1000000000 := by omega
  have htime := @timeOfDay?_written (ofDay / 1000000000 / 3600) (ofDay / 1000000000 / 60 % 60)
    (ofDay / 1000000000 % 60) (ofDay % 1000000000) (by omega) (by omega) (by omega) (by omega)
  simp only [Option.bind_eq_bind, Option.bind_some, hdate, hvalid, htime, hdays, true_or, if_true]
  rw [if_neg (by simp; omega)]
  have hclock : dayNumber ns * perDay + (Int.ofNat ((ofDay / 1000000000 / 3600 * 60 + ofDay / 1000000000 / 60 % 60) * 60 +
      ofDay / 1000000000 % 60) * perSecond + Int.ofNat (ofDay % 1000000000)) = ns := by
    rw [show perSecond = 1000000000 from rfl]
    simp only [Int.ofNat_eq_natCast]
    omega
  rw [hclock]

/-- The text of an instant is none of the words for a missing one. -/
theorem render_not_missing (ns : Int) : missingWords.contains (render "T" ns) = false := by
  have hlong : 3 < (render "T" ns).toList.length := by
    rw [toList_render]
    simp only [List.length_append, List.length_cons]
    omega
  have hshort : ∀ w ∈ missingWords, w.toList.length ≤ 3 := by decide
  rw [List.contains_eq_mem, decide_eq_false_iff_not]
  intro hmem
  exact absurd (hshort _ hmem) (by omega)

/-- Instants in range lie in years of four digits. -/
theorem year_inRange {ns : Int} (h : inRange ns = true) : 1 ≤ (Calendar.Date.ofDays (dayNumber ns)).year ∧
    (Calendar.Date.ofDays (dayNumber ns)).year ≤ 9999 := by
  have hbounds : -limit ≤ ns ∧ ns ≤ limit := by simpa [inRange] using h
  have hlimit : limit = 9223372036854775807 := rfl
  refine Calendar.year_ofDays ?_
  unfold dayNumber perDay perSecond
  rw [Int.fdiv_eq_ediv_of_nonneg _ (by norm_num)]
  omega

/-- The text of an instant in range reads back as the instant. -/
theorem read_text : ∀ {t : Instant}, (∀ ns, t = .known ns → inRange ns = true) → read t.text = .ok t
  | .missing, _ => rfl
  | .known ns, h => by
    have hrange := h ns rfl
    have hclock := local?_written ns (year_inRange hrange)
    unfold read readZoned text
    rw [if_neg (by rw [render_not_missing]; decide)]
    simp only [hclock, Option.getD_none, sub_zero, ofNanoseconds, if_pos hrange, Except.map]

end StrategyLab.Instant
