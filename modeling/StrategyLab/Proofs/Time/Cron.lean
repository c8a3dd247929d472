/-
Schedules and what they denote. A schedule is written as five fields with white space between them, a
field as parts with commas between them, and a part as a span of numbers with or without a step. A part
denotes a set of numbers, and so does a field. A schedule is decided at every instant, and it holds
exactly if the clock and the calendar show numbers of the sets of its fields (`holds_written`).
-/
import Mathlib.Tactic
import StrategyLab.Proofs.Text.Lines
import StrategyLab.Proofs.Time.Calendar
import StrategyLab.Time.Cron

namespace StrategyLab

/-! ## Numbers in writing -/

/-- A number in decimal digits, of which there may be any number and leading zeros. -/
structure Numeral.Written where
  digits : List Char
  decimal : ∀ c ∈ digits, c.isDigit = true
  nonempty : digits ≠ []

namespace Numeral

/-- The number that is written. -/
def Written.value (n : Written) : ℕ := Nat.ofDigitChars 10 n.digits 0

theorem digit_range {c : Char} (h : c.isDigit = true) : 48 ≤ c.toNat ∧ c.toNat ≤ 57 := by
  have hrange : 48 ≤ c.val ∧ c.val ≤ 57 := by simpa [Char.isDigit] using h
  simpa [UInt32.le_iff_toNat_le] using hrange

theorem digitValue?_digit {c : Char} (h : c.isDigit = true) : Text.digitValue? c = some (c.toNat - '0'.toNat) := by
  have hrange := digit_range h
  have hbounds : '0' ≤ c ∧ c ≤ '9' := by simpa [Char.isDigit, Char.le_def] using h
  unfold Text.digitValue?
  rw [if_pos (by omega), if_pos hbounds]
  rfl

theorem isBlank_digit {c : Char} (h : c.isDigit = true) : Text.isBlank c = false := by
  have hrange := digit_range h
  unfold Text.isBlank
  simp only [decide_eq_false_iff_not]
  omega

theorem digitsFrom?_digits {ds : List Char} (h : ∀ c ∈ ds, c.isDigit = true) (n : ℕ) :
    digitsFrom? n true ds = some (Nat.ofDigitChars 10 ds n) := by
  induction ds generalizing n with
  | nil => rfl
  | cons c ds ih =>
    obtain ⟨hc, hds⟩ := List.forall_mem_cons.1 h
    simp only [digitsFrom?, digitValue?_digit hc]
    rw [ih hds, Nat.ofDigitChars_cons]

/-- Decimal digits read as the number that they write. -/
theorem whole?_written (n : Written) : whole? (String.ofList n.digits) = some (n.value : ℤ) := by
  obtain ⟨ds, hdecimal, hne⟩ := n
  obtain ⟨c, ds, rfl⟩ := List.exists_cons_of_ne_nil hne
  obtain ⟨hc, hds⟩ := List.forall_mem_cons.1 hdecimal
  have hrange := digit_range hc
  have htrim : Text.trimChars (c :: ds) = c :: ds :=
    Text.trimChars_eq (fun d hd => isBlank_digit (hdecimal d (List.mem_of_mem_head? hd)))
      fun d hd => isBlank_digit (hdecimal d (List.mem_of_getLast? hd))
  -- no digit is a sign
  have hsigned : signed (c :: ds) = (false, c :: ds) := by
    unfold signed
    split
    · rename_i heq
      cases heq
      exact absurd hc (by decide)
    · rename_i heq
      cases heq
      exact absurd hc (by decide)
    · rfl
  have hdigits : digits? (c :: ds) = some (Written.value ⟨c :: ds, hdecimal, hne⟩) := by
    simp only [digits?, digitsFrom?, digitValue?_digit hc]
    exact digitsFrom?_digits hds _
  unfold whole?
  rw [String.toList_ofList, htrim, hsigned]
  simp only [hdigits, Option.map_some]
  rfl

end Numeral

namespace Cron

/-! ## Schedules in writing -/

/-- The numbers that a part goes through, before its step. -/
inductive Span where
  /-- Those of the field. -/
  | all
  | single (n : Numeral.Written)
  | between (first last : Numeral.Written)

namespace Span

/-- How a span is written. -/
def chars : Span → List Char
  | all => ['*']
  | single n => n.digits
  | between a b => a.digits ++ '-' :: b.digits

/-- The first number, in a field that begins at `low`. -/
def first (low : ℤ) : Span → ℤ
  | all => low
  | single n => n.value
  | between a _ => a.value

/-- The last number, in a field that ends at `high`. -/
def last (high : ℤ) : Span → ℤ
  | all => high
  | single n => n.value
  | between _ b => b.value

end Span

/-- A span with or without a step, which is at least one. -/
structure Part.Written where
  span : Span
  step : Option Numeral.Written
  step_pos : ∀ s ∈ step, 1 ≤ s.value

namespace Part.Written

/-- How a part is written. -/
def chars (p : Part.Written) : List Char :=
  match p.step with
  | none => p.span.chars
  | some s => p.span.chars ++ '/' :: s.digits

/-- The step, one unless it is written. -/
def stride (p : Part.Written) : ℤ :=
  match p.step with
  | none => 1
  | some s => s.value

/-- The numbers that a part denotes in a field from `low` to `high`: those of its span that are a number
of steps away from the first one. -/
def values (low high : ℤ) (p : Part.Written) : Set ℤ :=
  {v | p.span.first low ≤ v ∧ v ≤ p.span.last high ∧ p.stride ∣ v - p.span.first low}

end Part.Written

/-- A list of parts. -/
structure Field where
  parts : List Part.Written
  nonempty : parts ≠ []

namespace Field

/-- How a field is written. -/
def chars (f : Field) : List Char := [','].intercalate (f.parts.map Part.Written.chars)

/-- The numbers that one of the parts denotes. -/
def values (low high : ℤ) (f : Field) : Set ℤ := {v | ∃ p ∈ f.parts, v ∈ p.values low high}

end Field

/-- The white space of a schedule: something between any two fields, and anything at the ends. -/
structure Spacing where
  before : List Char
  minuteHour : List Char
  hourDay : List Char
  dayMonth : List Char
  monthWeekday : List Char
  behind : List Char
  blank : ∀ gap ∈ [before, minuteHour, hourDay, dayMonth, monthWeekday, behind], Text.Blank gap
  apart : ∀ gap ∈ [minuteHour, hourDay, dayMonth, monthWeekday], gap ≠ []

/-- A schedule as it is written. -/
structure Schedule where
  minute : Field
  hour : Field
  day : Field
  month : Field
  weekday : Field
  spacing : Spacing

namespace Schedule

/-- The text of a schedule. -/
def text (s : Schedule) : String :=
  String.ofList (s.spacing.before ++ (s.minute.chars ++ (s.spacing.minuteHour ++ (s.hour.chars ++
    (s.spacing.hourDay ++ (s.day.chars ++ (s.spacing.dayMonth ++ (s.month.chars ++
      (s.spacing.monthWeekday ++ (s.weekday.chars ++ s.spacing.behind))))))))))

/-- What a clock shows is in the sets of the fields. Sunday is both 0 and 7. -/
def Admits (s : Schedule) (c : Clock) : Prop :=
  c.minute ∈ s.minute.values 0 59 ∧ c.hour ∈ s.hour.values 0 23 ∧ c.day ∈ s.day.values 1 31 ∧
    c.month ∈ s.month.values 1 12 ∧
    (c.weekday ∈ s.weekday.values 0 7 ∨ c.weekday = 0 ∧ 7 ∈ s.weekday.values 0 7)

end Schedule

/-! ## Reading parts -/

theorem whole_written (n : Numeral.Written) : whole n.digits = .ok (n.value : ℤ) := by
  unfold whole
  rw [Numeral.whole?_written]

/-- What is no digit is not found among digits. -/
theorem not_mem_digits {c : Char} (hc : c.isDigit = false) (n : Numeral.Written) : c ∉ n.digits := fun hmem => by
  have hdigit := n.decimal c hmem
  rw [hc] at hdigit
  cases hdigit

theorem not_mem_span {c : Char} (hc : c.isDigit = false) (hstar : c ≠ '*') (hdash : c ≠ '-') (s : Span) : c ∉ s.chars := by
  cases s with
  | all => simpa [Span.chars] using hstar
  | single n => exact not_mem_digits hc n
  | between a b => simp [Span.chars, not_mem_digits hc, hdash]

theorem not_mem_part {c : Char} (hc : c.isDigit = false) (hstar : c ≠ '*') (hdash : c ≠ '-') (hslash : c ≠ '/')
    (p : Part.Written) : c ∉ p.chars := by
  have hspan := not_mem_span hc hstar hdash p.span
  unfold Part.Written.chars
  cases p.step with
  | none => exact hspan
  | some s => simp [hspan, not_mem_digits hc, hslash]

/-- A span as it is read, once its step is. -/
theorem readSpan (low high step : ℤ) (s : Span) :
    (if s.chars = ['*'] then pure ⟨low, high, step⟩
      else match Text.cutAt? '-' s.chars with
        | some (first, last) => do
          let a ← whole first
          let b ← whole last
          pure ⟨a, b, step⟩
        | none => do
          let a ← whole s.chars
          pure ⟨a, a, step⟩ : Except CronFault Part) = .ok ⟨s.first low, s.last high, step⟩ := by
  cases s with
  | all => rfl
  | single n =>
    have hstar : n.digits ≠ ['*'] := fun heq =>
      not_mem_digits (show '*'.isDigit = false by decide) n (by rw [heq]; exact List.mem_singleton_self _)
    rw [if_neg (show (Span.single n).chars ≠ ['*'] from hstar)]
    simp only [Span.chars, Text.cutAt?_eq_none (not_mem_digits (show '-'.isDigit = false by decide) n), whole_written]
    rfl
  | between a b =>
    have hstar : a.digits ++ '-' :: b.digits ≠ ['*'] := fun heq => by
      have hdash : '-' ∈ ['*'] := by rw [← heq]; simp
      exact absurd hdash (by decide)
    rw [if_neg (show (Span.between a b).chars ≠ ['*'] from hstar)]
    simp only [Span.chars, Text.cutAt?_append (not_mem_digits (show '-'.isDigit = false by decide) a), whole_written]
    rfl

/-- A part reads as its ends and its step. -/
theorem readPart_written (low high : ℤ) (p : Part.Written) :
    readPart low high p.chars = .ok ⟨p.span.first low, p.span.last high, p.stride⟩ := by
  have hslash := not_mem_span (show '/'.isDigit = false by decide) (by decide) (by decide) p.span
  unfold readPart Part.Written.chars Part.Written.stride
  cases p.step with
  | none =>
    simp only [Text.cutAt?_eq_none hslash, pure_bind]
    exact readSpan low high 1 p.span
  | some s =>
    simp only [Text.cutAt?_append hslash, whole_written]
    exact readSpan low high s.value p.span

/-- The step of a part is no zero, so that a value is decided. -/
theorem holds_part (low high : ℤ) (p : Part.Written) (v : ℤ) : ∃ b,
    Part.holds ⟨p.span.first low, p.span.last high, p.stride⟩ (some v) = .ok b ∧ (b = true ↔ v ∈ p.values low high) := by
  have hstride : p.stride ≠ 0 := by
    have hpos := p.step_pos
    unfold Part.Written.stride
    cases hstep : p.step with
    | none => decide
    | some s =>
      have := hpos s hstep
      simp only [ne_eq, Nat.cast_eq_zero]
      omega
  unfold Part.holds Part.Written.values
  dsimp only
  split_ifs with hwithin
  · refine ⟨_, rfl, ?_⟩
    simp only [decide_eq_true_eq, Set.mem_ofPred_eq, hwithin, true_and, Int.dvd_iff_emod_eq_zero]
  · refine ⟨false, rfl, ?_⟩
    simp only [Bool.false_eq_true, false_iff, Set.mem_ofPred_eq]
    tauto

/-! ## Reading fields -/

theorem anyPart_written (low high v : ℤ) (ps : List Part.Written) : ∃ b,
    anyPart low high (some v) (ps.map Part.Written.chars) = .ok b ∧ (b = true ↔ ∃ p ∈ ps, v ∈ p.values low high) := by
  induction ps with
  | nil => exact ⟨false, rfl, by simp⟩
  | cons p ps ih =>
    obtain ⟨found, hfound, hholds⟩ := holds_part low high p v
    obtain ⟨b, hb, hrest⟩ := ih
    rw [List.map_cons, anyPart, readPart_written]
    simp only [bind, Except.bind, hfound]
    cases found with
    | true => exact ⟨true, rfl, by simp [← hholds]⟩
    | false =>
      refine ⟨b, hb, ?_⟩
      have hnot : v ∉ p.values low high := fun hv => Bool.false_ne_true (hholds.2 hv)
      simp [hrest, hnot]

/-- No value is none of any part. -/
theorem anyPart_missing (low high : ℤ) (ps : List Part.Written) :
    anyPart low high none (ps.map Part.Written.chars) = .ok false := by
  induction ps with
  | nil => rfl
  | cons p ps ih =>
    rw [List.map_cons, anyPart, readPart_written]
    exact ih

/-- The parts of a field come back from its text. -/
theorem splitOn_field (f : Field) : Text.splitOn ',' f.chars = f.parts.map Part.Written.chars := by
  refine Text.splitOn_intercalate (fun piece hpiece => ?_) (by simpa using f.nonempty)
  obtain ⟨p, -, rfl⟩ := List.mem_map.1 hpiece
  exact not_mem_part (by decide) (by decide) (by decide) (by decide) p

theorem fieldHolds_written (f : Field) (low high v : ℤ) : ∃ b,
    fieldHolds (String.ofList f.chars) low high (some v) = .ok b ∧ (b = true ↔ v ∈ f.values low high) := by
  unfold fieldHolds
  rw [String.toList_ofList, splitOn_field]
  exact anyPart_written low high v f.parts

theorem fieldHolds_missing (f : Field) (low high : ℤ) : fieldHolds (String.ofList f.chars) low high none = .ok false := by
  unfold fieldHolds
  rw [String.toList_ofList, splitOn_field]
  exact anyPart_missing low high f.parts

theorem weekdayHolds_written (f : Field) (v : ℤ) : ∃ b, weekdayHolds (String.ofList f.chars) (some v) = .ok b ∧
    (b = true ↔ v ∈ f.values 0 7 ∨ v = 0 ∧ 7 ∈ f.values 0 7) := by
  obtain ⟨named, hnamed, hsame⟩ := fieldHolds_written f 0 7 v
  obtain ⟨seven, hseven, hsunday⟩ := fieldHolds_written f 0 7 7
  unfold weekdayHolds
  simp only [hnamed, hseven, bind, Except.bind]
  cases named with
  | true => exact ⟨true, rfl, by simp [← hsame]⟩
  | false =>
    have hnot : v ∉ f.values 0 7 := fun hv => Bool.false_ne_true (hsame.2 hv)
    by_cases hzero : v = 0
    · subst hzero
      exact ⟨seven, rfl, by simp [hsunday, hnot]⟩
    · refine ⟨false, ?_, by simp [hnot, hzero]⟩
      simp [hzero, pure, Except.pure]

/-! ## Words of a schedule -/

theorem solid_part (p : Part.Written) : Text.Solid p.chars := by
  have hdigits : ∀ n : Numeral.Written, Text.Solid n.digits := fun n c hc => Numeral.isBlank_digit (n.decimal c hc)
  have hspan : Text.Solid p.span.chars := by
    cases p.span with
    | all => simp [Span.chars, Text.Solid, Text.isBlank]
    | single n => exact hdigits n
    | between a b =>
      intro c hc
      simp only [Span.chars, List.mem_append, List.mem_cons] at hc
      rcases hc with hc | rfl | hc
      · exact hdigits a c hc
      · decide
      · exact hdigits b c hc
  unfold Part.Written.chars
  cases p.step with
  | none => exact hspan
  | some s =>
    intro c hc
    simp only [List.mem_append, List.mem_cons] at hc
    rcases hc with hc | rfl | hc
    · exact hspan c hc
    · decide
    · exact hdigits s c hc

theorem part_ne_nil (p : Part.Written) : p.chars ≠ [] := by
  have hspan : p.span.chars ≠ [] := by
    cases p.span with
    | all => exact List.cons_ne_nil _ _
    | single n => exact n.nonempty
    | between a b => simp [Span.chars]
  unfold Part.Written.chars
  cases p.step with
  | none => exact hspan
  | some s => simp

/-- Joined characters without blanks have none, and there are some. -/
theorem solid_intercalate : ∀ {pieces : List (List Char)}, (∀ piece ∈ pieces, Text.Solid piece ∧ piece ≠ []) →
    pieces ≠ [] → Text.Solid ([','].intercalate pieces) ∧ [','].intercalate pieces ≠ []
  | [piece], h, _ => by
    rw [List.intercalate_singleton]
    exact h piece List.mem_cons_self
  | piece :: next :: rest, h, _ => by
    obtain ⟨hpiece, hrest⟩ := List.forall_mem_cons.1 h
    obtain ⟨hsolid, -⟩ := solid_intercalate hrest (List.cons_ne_nil next rest)
    rw [List.intercalate_cons_cons]
    refine ⟨fun c hc => ?_, by simp⟩
    simp only [List.mem_append, List.mem_singleton] at hc
    rcases hc with (hc | rfl) | hc
    · exact hpiece.1 c hc
    · decide
    · exact hsolid c hc

theorem field_word (f : Field) : Text.Solid f.chars ∧ f.chars ≠ [] := by
  refine solid_intercalate (fun piece hpiece => ?_) (by simpa using f.nonempty)
  obtain ⟨p, -, rfl⟩ := List.mem_map.1 hpiece
  exact ⟨solid_part p, part_ne_nil p⟩

/-- The words of a schedule are its fields. -/
theorem words_schedule (s : Schedule) : Text.words s.text =
    [String.ofList s.minute.chars, String.ofList s.hour.chars, String.ofList s.day.chars, String.ofList s.month.chars,
      String.ofList s.weekday.chars] := by
  obtain ⟨minute, hour, day, month, weekday, ⟨before, gap₁, gap₂, gap₃, gap₄, behind, hblank, hapart⟩⟩ := s
  simp only [List.forall_mem_cons, List.not_mem_nil, false_imp_iff, implies_true, and_true] at hblank hapart
  obtain ⟨hbefore, hblank₁, hblank₂, hblank₃, hblank₄, hbehind⟩ := hblank
  obtain ⟨hne₁, hne₂, hne₃, hne₄⟩ := hapart
  have hword (f : Field) {gap : List Char} (hgap : Text.Blank gap) (hne : gap ≠ []) (rest : List Char) :
      Text.wordsFrom [] (f.chars ++ (gap ++ rest)) = f.chars :: Text.wordsFrom [] rest :=
    Text.wordsFrom_word (field_word f).1 (field_word f).2 hgap hne rest
  unfold Text.words Schedule.text
  rw [String.toList_ofList]
  dsimp only
  rw [Text.wordsFrom_blank hbefore, hword minute hblank₁ hne₁, hword hour hblank₂ hne₂, hword day hblank₃ hne₃,
    hword month hblank₄ hne₄, Text.wordsFrom_last (field_word weekday).1 (field_word weekday).2 hbehind]
  rfl

/-! ## The clock -/

/-- A clock shows the hour and the minute of its day that an instant lies in, and the calendar's date and
weekday of that day. Days are counted from a Thursday. -/
structure Clock.Shows (c : Clock) (date : Calendar.Date) (ns : ℤ) : Prop where
  valid : date.isValid = true
  day : c.day = date.day
  month : c.month = date.month
  weekday : 0 ≤ c.weekday ∧ c.weekday < 7
  from_thursday : 7 ∣ date.toDays + 4 - c.weekday
  hour : 0 ≤ c.hour ∧ c.hour < 24
  minute : 0 ≤ c.minute ∧ c.minute < 60
  from_minute : date.toDays * Instant.perDay + (c.hour * 60 + c.minute) * (60 * Instant.perSecond) ≤ ns
  before_next : ns < date.toDays * Instant.perDay + (c.hour * 60 + c.minute + 1) * (60 * Instant.perSecond)

/-- There is a clock for every instant. -/
theorem clock_shows (ns : ℤ) : ∃ c, Clock.ofInstant (.known ns) = some c ∧
    c.Shows (Calendar.Date.ofDays (Instant.dayNumber ns)) ns := by
  have hsecond : Instant.perSecond = 1000000000 := rfl
  have hday : Instant.perDay = 86400 * 1000000000 := rfl
  have hnumber : Instant.dayNumber ns = ns / (86400 * 1000000000) := by
    unfold Instant.dayNumber
    rw [hday, Int.fdiv_eq_ediv_of_nonneg _ (by norm_num)]
  have hdate := Calendar.toDays_ofDays (ns / (86400 * 1000000000))
  refine ⟨_, rfl, { valid := Calendar.ofDays_isValid _, day := rfl, month := rfl, weekday := ?_, from_thursday := ?_,
                    hour := ?_, minute := ?_, from_minute := ?_, before_next := ?_ }⟩
  all_goals
    simp only [Calendar.weekday, hnumber, hdate, hsecond, hday]
    omega

/-- No other clock shows the instant. -/
theorem Clock.Shows.unique {c : Clock} {date : Calendar.Date} {ns : ℤ} (h : c.Shows date ns) :
    Clock.ofInstant (.known ns) = some c := by
  obtain ⟨minute, hour, day, month, weekday⟩ := c
  have hminute : 0 ≤ minute ∧ minute < 60 := h.minute
  have hhour : 0 ≤ hour ∧ hour < 24 := h.hour
  have hweekday : 0 ≤ weekday ∧ weekday < 7 := h.weekday
  have hthursday : 7 ∣ date.toDays + 4 - weekday := h.from_thursday
  have hfrom := h.from_minute
  have hbefore := h.before_next
  have hsecond : Instant.perSecond = 1000000000 := rfl
  have hperDay : Instant.perDay = 86400 * 1000000000 := rfl
  rw [hsecond, hperDay] at hfrom hbefore
  dsimp only at hfrom hbefore
  have hnumber : Instant.dayNumber ns = date.toDays := by
    unfold Instant.dayNumber
    rw [hperDay, Int.fdiv_eq_ediv_of_nonneg _ (by norm_num)]
    omega
  unfold ofInstant
  simp only [hnumber, Calendar.ofDays_toDays h.valid, Option.some.injEq, Clock.mk.injEq, Calendar.weekday, hsecond,
    hperDay]
  exact ⟨by omega, by omega, h.day.symm, h.month.symm, by omega⟩

/-! ## Schedules -/

/-- A schedule is decided by its fields, one after the other. -/
theorem holds_words {s : Schedule} (t : Instant) : holds s.text t = (do
    if ← fieldHolds (String.ofList s.minute.chars) 0 59 ((Clock.ofInstant t).map (·.minute)) then
      if ← fieldHolds (String.ofList s.hour.chars) 0 23 ((Clock.ofInstant t).map (·.hour)) then
        if ← fieldHolds (String.ofList s.day.chars) 1 31 ((Clock.ofInstant t).map (·.day)) then
          if ← fieldHolds (String.ofList s.month.chars) 1 12 ((Clock.ofInstant t).map (·.month)) then
            return ← weekdayHolds (String.ofList s.weekday.chars) ((Clock.ofInstant t).map (·.weekday))
    pure false) := by
  unfold holds
  rw [words_schedule]

theorem holds_clock (s : Schedule) {t : Instant} {c : Clock} (hc : Clock.ofInstant t = some c) :
    ∃ b, holds s.text t = .ok b ∧ (b = true ↔ s.Admits c) := by
  obtain ⟨m, hm, hminute⟩ := fieldHolds_written s.minute 0 59 c.minute
  obtain ⟨h, hh, hhour⟩ := fieldHolds_written s.hour 0 23 c.hour
  obtain ⟨d, hd, hday⟩ := fieldHolds_written s.day 1 31 c.day
  obtain ⟨n, hn, hmonth⟩ := fieldHolds_written s.month 1 12 c.month
  obtain ⟨w, hw, hweekday⟩ := weekdayHolds_written s.weekday c.weekday
  refine ⟨m && h && d && n && w, ?_, ?_⟩
  · rw [holds_words, hc]
    simp only [Option.map_some, hm, hh, hd, hn, hw, bind, Except.bind, pure, Except.pure]
    cases m <;> cases h <;> cases d <;> cases n <;> rfl
  · unfold Schedule.Admits
    simp only [Bool.and_eq_true, hminute, hhour, hday, hmonth, hweekday, and_assoc]

/-- A schedule is decided at every instant, by the sets that its fields denote and the numbers that the
clock and the calendar show; at a missing instant it does not hold. -/
theorem holds_written (s : Schedule) :
    (∀ ns, (∃ (clock : Clock) (date : Calendar.Date), clock.Shows date ns) ∧
      ∀ (clock : Clock) (date : Calendar.Date), clock.Shows date ns →
        ∃ b, holds s.text (.known ns) = .ok b ∧ (b = true ↔ s.Admits clock)) ∧
      holds s.text .missing = .ok false := by
  constructor
  · intro ns
    obtain ⟨c, -, hshows⟩ := clock_shows ns
    exact ⟨⟨c, _, hshows⟩, fun clock date h => holds_clock s h.unique⟩
  · rw [holds_words]
    simp only [Clock.ofInstant, Option.map_none, fieldHolds_missing]
    rfl

end Cron

end StrategyLab
