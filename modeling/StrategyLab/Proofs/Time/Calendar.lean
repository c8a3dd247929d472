/-
Days and dates: the date of a day is one of the calendar's and counts back to the day
(`ofDays_isValid`, `toDays_ofDays`), and no other date of the calendar does (`ofDays_toDays`).
-/
import Mathlib.Tactic
import StrategyLab.Time.Calendar

namespace StrategyLab.Calendar

/-! ## Places in an era -/

/-- A day's place in its era of 400 years from March: the century, the four years in it, the year in
these, and the day of the year. -/
structure Place (dayOfEra c q y d : Int) : Prop where
  century : 0 ≤ c ∧ c ≤ 3
  four : 0 ≤ q ∧ q ≤ 24
  year : 0 ≤ y ∧ y ≤ 3
  day : 0 ≤ d ∧ d ≤ 365
  leap : d = 365 → y = 3 ∧ (q ≤ 23 ∨ c = 3)
  eq : dayOfEra = 36524 * c + 1461 * q + 365 * y + d

theorem exists_place {dayOfEra : Int} (h : 0 ≤ dayOfEra ∧ dayOfEra ≤ 146096) :
    ∃ c q y d, Place dayOfEra c q y d := by
  -- the last century and the last year may be one day longer
  obtain ⟨c, hc, hc'⟩ : ∃ c, (0 ≤ c ∧ c ≤ 3) ∧ 36524 * c ≤ dayOfEra ∧ (dayOfEra < 36524 * c + 36524 ∨ c = 3) :=
    if h3 : dayOfEra < 109572 then ⟨dayOfEra / 36524, by omega, by omega, by omega⟩ else ⟨3, by omega, by omega, by omega⟩
  obtain ⟨q, hq⟩ : ∃ q, q = (dayOfEra - 36524 * c) / 1461 := ⟨_, rfl⟩
  obtain ⟨y, hy, hy'⟩ : ∃ y, (0 ≤ y ∧ y ≤ 3) ∧ 365 * y ≤ dayOfEra - 36524 * c - 1461 * q ∧
      (dayOfEra - 36524 * c - 1461 * q < 365 * y + 365 ∨ y = 3) :=
    if h3 : dayOfEra - 36524 * c - 1461 * q < 1095 then
      ⟨(dayOfEra - 36524 * c - 1461 * q) / 365, by omega, by omega, by omega⟩
    else ⟨3, by omega, by omega, by omega⟩
  exact ⟨c, q, y, dayOfEra - 36524 * c - 1461 * q - 365 * y, hc, by omega, hy, by omega, by omega, by omega⟩

theorem Place.yearOfEra {dayOfEra c q y d : Int} (h : Place dayOfEra c q y d) :
    (dayOfEra - dayOfEra / 1460 + dayOfEra / 36524 - dayOfEra / 146096) / 365 = 100 * c + 4 * q + y := by
  obtain ⟨hc, hq, hy, hd, hleap, heq⟩ := h
  -- the divisors stand for the leap days before the day
  have hfours : dayOfEra / 1460 = 25 * c + q + (24 * c + q + 365 * y + d) / 1460 := by omega
  have hover : (24 * c + q + 365 * y + d) / 1460 = 0 ∨ (24 * c + q + 365 * y + d) / 1460 = 1 := by omega
  have hspan : 1461 * q + 365 * y + d ≤ 36523 ∨ dayOfEra = 146096 := by
    by_cases hlast : d = 365
    · obtain ⟨rfl, hq' | rfl⟩ := hleap hlast <;> omega
    · omega
  have hcenturies : dayOfEra / 36524 - dayOfEra / 146096 = c := by
    rcases hspan with hspan | hspan
    · have hlow : 36524 * c ≤ dayOfEra := by omega
      have hhigh : dayOfEra ≤ 36524 * c + 36523 := by omega
      clear heq
      omega
    · omega
  rcases hover with hover | hover <;> omega

theorem Place.dayOfYear {dayOfEra c q y d : Int} (h : Place dayOfEra c q y d) :
    dayOfEra - (365 * (100 * c + 4 * q + y) + (100 * c + 4 * q + y) / 4 - (100 * c + 4 * q + y) / 100) = d := by
  obtain ⟨hc, hq, hy, hd, -, heq⟩ := h
  have hfours : (100 * c + 4 * q + y) / 4 = 25 * c + q := by omega
  have hcenturies : (100 * c + 4 * q + y) / 100 = c := by omega
  omega

/-! ## Months from March -/

/-- The month from March of a day of the year, and the days before it. -/
structure InMonth (d m : Int) : Prop where
  month : 0 ≤ m ∧ m ≤ 11
  first : (153 * m + 2) / 5 ≤ d
  last : d < (153 * (m + 1) + 2) / 5

theorem inMonth {d : Int} (h : 0 ≤ d ∧ d ≤ 365) : InMonth d ((5 * d + 2) / 153) :=
  ⟨by omega, by omega, by omega⟩

/-! ## Dates -/

/-- The date of a day of a year from March; the last two months belong to the next year. -/
def dateOf (year m d : Int) : Date :=
  if m < 10 then { year, month := (m + 3).toNat, day := (d - (153 * m + 2) / 5 + 1).toNat }
  else { year := year + 1, month := (m - 9).toNat, day := (d - (153 * m + 2) / 5 + 1).toNat }

/-- The place of a day in its era. -/
structure Dated (days era c q y d : Int) : Prop where
  place : Place (36524 * c + 1461 * q + 365 * y + d) c q y d
  eq : days + 719468 = era * 146097 + (36524 * c + 1461 * q + 365 * y + d)

theorem exists_dated (days : Int) : ∃ era c q y d, Dated days era c q y d := by
  have hplace : 0 ≤ (days + 719468) % 146097 ∧ (days + 719468) % 146097 ≤ 146096 := by omega
  obtain ⟨c, q, y, d, h⟩ := exists_place hplace
  refine ⟨(days + 719468) / 146097, c, q, y, d, h.eq ▸ h, ?_⟩
  have := h.eq
  omega

theorem Dated.ofDays {days era c q y d : Int} (h : Dated days era c q y d) :
    Date.ofDays days = dateOf (100 * c + 4 * q + y + era * 400) ((5 * d + 2) / 153) d := by
  obtain ⟨hplace, heq⟩ := h
  have hbounds : 0 ≤ 36524 * c + 1461 * q + 365 * y + d ∧ 36524 * c + 1461 * q + 365 * y + d ≤ 146096 := by
    obtain ⟨hc, hq, hy, hd, hleap, -⟩ := hplace
    by_cases hlast : d = 365
    · obtain ⟨rfl, hq' | rfl⟩ := hleap hlast <;> omega
    · omega
  have hera : (days + 719468).fdiv 146097 = era := by
    rw [Int.fdiv_eq_ediv_of_nonneg _ (by norm_num)]
    omega
  have hrest : days + 719468 - era * 146097 = 36524 * c + 1461 * q + 365 * y + d := by omega
  have hm := (inMonth hplace.day).month
  unfold Date.ofDays dateOf
  simp only [hera, hrest, hplace.yearOfEra, hplace.dayOfYear]
  by_cases hlt : (5 * d + 2) / 153 < 10
  · simp only [if_pos hlt]
    rw [if_neg (by omega)]
  · simp only [if_neg hlt]
    rw [if_pos (by omega)]

theorem toDays_dateOf {era yearOfEra m d : Int} (hyear : 0 ≤ yearOfEra ∧ yearOfEra ≤ 399) (hm : 0 ≤ m ∧ m ≤ 11)
    (hd : (153 * m + 2) / 5 ≤ d) : (dateOf (yearOfEra + era * 400) m d).toDays =
      era * 146097 + (yearOfEra * 365 + yearOfEra / 4 - yearOfEra / 100 + d) - 719468 := by
  have hfdiv : (yearOfEra + era * 400).fdiv 400 = era := by
    rw [Int.fdiv_eq_ediv_of_nonneg _ (by norm_num)]
    omega
  have hrest : yearOfEra + era * 400 - era * 400 = yearOfEra := by omega
  unfold dateOf
  split
  · have hlate : ¬ (m + 3).toNat ≤ 2 := by omega
    have hlate' : 2 < (m + 3).toNat := by omega
    have hmonth : (Int.ofNat (m + 3).toNat - 3 : Int) = m := by simp; omega
    have hday : Int.ofNat (d - (153 * m + 2) / 5 + 1).toNat = d - (153 * m + 2) / 5 + 1 := by simp; omega
    simp only [Date.toDays, if_neg hlate, if_pos hlate', hfdiv, hrest, hmonth, hday]
    omega
  · have hearly : (m - 9).toNat ≤ 2 := by omega
    have hearly' : ¬ 2 < (m - 9).toNat := by omega
    have hmonth : (Int.ofNat (m - 9).toNat + 9 : Int) = m := by simp; omega
    have hday : Int.ofNat (d - (153 * m + 2) / 5 + 1).toNat = d - (153 * m + 2) / 5 + 1 := by simp; omega
    simp only [Date.toDays, if_pos hearly, if_neg hearly', add_sub_cancel_right, hfdiv, hrest, hmonth, hday]
    omega

/-- The date of a day counts back to the day. -/
theorem toDays_ofDays (days : Int) : (Date.ofDays days).toDays = days := by
  obtain ⟨era, c, q, y, d, h⟩ := exists_dated days
  have hm := inMonth h.place.day
  have hc := h.place.century
  have hq := h.place.four
  have hy := h.place.year
  have heq := h.eq
  rw [h.ofDays, toDays_dateOf ⟨by omega, by omega⟩ hm.month hm.first]
  have hfours : (100 * c + 4 * q + y) / 4 = 25 * c + q := by omega
  have hcenturies : (100 * c + 4 * q + y) / 100 = c := by omega
  rw [hfours, hcenturies]
  omega

/-- The date of a day is one of the calendar's. -/
theorem ofDays_isValid (days : Int) : (Date.ofDays days).isValid = true := by
  obtain ⟨era, c, q, y, d, h⟩ := exists_dated days
  obtain ⟨hm, hfirst, hlast⟩ := inMonth h.place.day
  have hday := h.place.day
  have hleap : d = 365 → (100 * c + 4 * q + y + era * 400 + 1) % 400 = 0 ∨
      (100 * c + 4 * q + y + era * 400 + 1) % 4 = 0 ∧ (100 * c + 4 * q + y + era * 400 + 1) % 100 ≠ 0 := by
    have hq := h.place.four
    intro hd
    obtain ⟨rfl, hearly | rfl⟩ := h.place.leap hd
    · right; omega
    · by_cases hlast' : q = 24
      · left; omega
      · right; omega
  rw [h.ofDays]
  generalize (5 * d + 2) / 153 = m at hm hfirst hlast ⊢
  have hcases : m = 0 ∨ m = 1 ∨ m = 2 ∨ m = 3 ∨ m = 4 ∨ m = 5 ∨ m = 6 ∨ m = 7 ∨ m = 8 ∨ m = 9 ∨ m = 10 ∨ m = 11 := by omega
  unfold Date.isValid dateOf monthLength isLeap
  rcases hcases with rfl | rfl | rfl | rfl | rfl | rfl | rfl | rfl | rfl | rfl | rfl | rfl <;> simp <;> omega

/-- The length of a month is at most the days from its first day to that of the next one; in February
there is the leap day besides. -/
theorem inMonth_valid {date : Date} (h : date.isValid = true) {m d : Int}
    (hm : m = if 2 < date.month then (date.month : Int) - 3 else date.month + 9)
    (hd : d = (153 * m + 2) / 5 + date.day - 1) :
    InMonth d m ∧ d ≤ 365 ∧ (d = 365 → date.month = 2 ∧ isLeap date.year = true) := by
  simp only [Date.isValid, decide_eq_true_eq] at h
  obtain ⟨hlow, hhigh, hday, hlast⟩ := h
  unfold monthLength at hlast
  by_cases hfeb : date.month = 2
  · rw [hfeb, if_neg (by norm_num)] at hm
    rw [if_pos hfeb] at hlast
    cases hleap : isLeap date.year with
    | true =>
      rw [hleap, if_pos rfl] at hlast
      exact ⟨⟨by omega, by omega, by omega⟩, by omega, fun _ => ⟨hfeb, rfl⟩⟩
    | false =>
      rw [hleap, if_neg (by simp)] at hlast
      exact ⟨⟨by omega, by omega, by omega⟩, by omega, fun _ => by omega⟩
  · rw [if_neg hfeb] at hlast
    have hcases : date.month = 1 ∨ date.month = 3 ∨ date.month = 4 ∨ date.month = 5 ∨ date.month = 6 ∨ date.month = 7 ∨
        date.month = 8 ∨ date.month = 9 ∨ date.month = 10 ∨ date.month = 11 ∨ date.month = 12 := by omega
    rcases hcases with h | h | h | h | h | h | h | h | h | h | h <;> rw [h] at hm hlast <;> norm_num at hm hlast
    all_goals exact ⟨⟨by omega, by omega, by omega⟩, by omega, fun _ => by omega⟩

/-- The day of a date of the calendar has that date. -/
theorem ofDays_toDays {date : Date} (h : date.isValid = true) : Date.ofDays date.toDays = date := by
  -- the place of the date in its era: year from March, month from March, and day of that year
  obtain ⟨year, hyear⟩ : ∃ year, year = if date.month ≤ 2 then date.year - 1 else date.year := ⟨_, rfl⟩
  obtain ⟨m, hm⟩ : ∃ m : Int, m = if 2 < date.month then (date.month : Int) - 3 else date.month + 9 := ⟨_, rfl⟩
  obtain ⟨d, hd⟩ : ∃ d, d = (153 * m + 2) / 5 + date.day - 1 := ⟨_, rfl⟩
  obtain ⟨hinMonth, hlast, hleap⟩ := inMonth_valid h hm hd
  have hfirst := hinMonth.first
  have hmonth := hinMonth.month
  have hbefore := hinMonth.last
  obtain ⟨e, he⟩ : ∃ e, e = year % 400 := ⟨_, rfl⟩
  have hera : year.fdiv 400 = year / 400 := Int.fdiv_eq_ediv_of_nonneg _ (by norm_num)
  have hplace : Place (36524 * (e / 100) + 1461 * (e % 100 / 4) + 365 * (e % 4) + d) (e / 100) (e % 100 / 4) (e % 4) d := by
    refine ⟨by omega, by omega, by omega, by omega, fun hd => ?_, rfl⟩
    obtain ⟨hfeb, hleap⟩ := hleap hd
    rw [if_pos (by omega)] at hyear
    simp only [isLeap, decide_eq_true_eq] at hleap
    omega
  have htoDays : date.toDays = year / 400 * 146097 + (e * 365 + e / 4 - e / 100 + d) - 719468 := by
    unfold Date.toDays
    simp only [← hyear, hera, Int.ofNat_eq_natCast, ← hm, ← hd]
    omega
  have hdated : Dated date.toDays (year / 400) (e / 100) (e % 100 / 4) (e % 4) d := ⟨hplace, by rw [htoDays]; omega⟩
  have hback : (5 * d + 2) / 153 = m := by omega
  rw [hdated.ofDays, hback]
  simp only [Date.isValid, decide_eq_true_eq] at h
  unfold dateOf
  split
  · rw [Date.mk.injEq]
    omega
  · rw [Date.mk.injEq]
    omega

/-- Days around the present lie in years of four digits. -/
theorem year_ofDays {days : Int} (h : -700000 ≤ days ∧ days ≤ 2900000) :
    1 ≤ (Date.ofDays days).year ∧ (Date.ofDays days).year ≤ 9999 := by
  obtain ⟨era, c, q, y, d, hdated⟩ := exists_dated days
  have hc := hdated.place.century
  have hq := hdated.place.four
  have hy := hdated.place.year
  have hd := hdated.place.day
  have heq := hdated.eq
  rw [hdated.ofDays]
  unfold dateOf
  split <;> dsimp only <;> omega

end StrategyLab.Calendar
