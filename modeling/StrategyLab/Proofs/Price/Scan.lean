/-
The price of a series as a scan from left to right (`scan`), in exact arithmetic. The search by halving
and the line in 64 bits come to the same as a walk over the samples that stops at the first one which is
not before the instant (`priceAt_scan`), as long as the samples lie less than 2^63 nanoseconds apart.

Main statement: the price is that of a sample at its time, that of the nearest sample outside of the
samples, and runs on the straight line between two neighbours (`priceAt_piecewise`).
-/
import StrategyLab.Proofs.Price.Window

namespace StrategyLab.Series

/-! ## Lines -/

/-- The price on the straight line through two samples. -/
def onLine (a b : Sample ℚ) (t : Int) : ℚ :=
  a.price + (b.price - a.price) * (((t - a.time.count : Int) : ℚ) / ((b.time.count - a.time.count : Int) : ℚ))

/-- A price lies between two others, and strictly so if these differ. -/
structure Between (p q price : ℚ) : Prop where
  low : min p q ≤ price
  high : price ≤ max p q
  strict : p ≠ q → min p q < price ∧ price < max p q

section

variable {a b : Sample ℚ} {t t' : Int}

theorem onLine_left (a b : Sample ℚ) : onLine a b a.time.count = a.price := by
  unfold onLine
  rw [sub_self, Int.cast_zero, zero_div, mul_zero, add_zero]

theorem onLine_right (h : a.time.count < b.time.count) : onLine a b b.time.count = b.price := by
  have hwidth : ((b.time.count - a.time.count : Int) : ℚ) ≠ 0 := Int.cast_ne_zero.2 (by omega)
  unfold onLine
  rw [div_self hwidth, mul_one, add_sub_cancel]

/-- A weighted mean of two prices lies between them. -/
theorem between_mean (p q : ℚ) {ratio : ℚ} (hpos : 0 < ratio) (hone : ratio < 1) :
    Between p q (p + (q - p) * ratio) := by
  rcases lt_trichotomy p q with h | rfl | h
  · have hrise : 0 < (q - p) * ratio := mul_pos (sub_pos.2 h) hpos
    have hless : (q - p) * ratio < q - p := mul_lt_of_lt_one_right (sub_pos.2 h) hone
    have hlow : min p q < p + (q - p) * ratio := by rw [min_eq_left h.le]; linarith
    have hhigh : p + (q - p) * ratio < max p q := by rw [max_eq_right h.le]; linarith
    exact ⟨hlow.le, hhigh.le, fun _ => ⟨hlow, hhigh⟩⟩
  · rw [sub_self, zero_mul, add_zero]
    exact ⟨min_le_left p p, le_max_left p p, fun hne => absurd rfl hne⟩
  · have hfall : 0 < (p - q) * ratio := mul_pos (sub_pos.2 h) hpos
    have hless : (p - q) * ratio < p - q := mul_lt_of_lt_one_right (sub_pos.2 h) hone
    have hlow : min p q < p + (q - p) * ratio := by rw [min_eq_right h.le]; linarith
    have hhigh : p + (q - p) * ratio < max p q := by rw [max_eq_left h.le]; linarith
    exact ⟨hlow.le, hhigh.le, fun _ => ⟨hlow, hhigh⟩⟩

theorem onLine_between (hlo : a.time.count < t) (hhi : t < b.time.count) :
    Between a.price b.price (onLine a b t) := by
  have hpart : (0 : ℚ) < ((t - a.time.count : Int) : ℚ) := Int.cast_pos.2 (by omega)
  have hwidth : (0 : ℚ) < ((b.time.count - a.time.count : Int) : ℚ) := Int.cast_pos.2 (by omega)
  have hless : ((t - a.time.count : Int) : ℚ) < ((b.time.count - a.time.count : Int) : ℚ) :=
    Int.cast_lt.2 (by omega)
  exact between_mean _ _ (div_pos hpart hwidth) ((div_lt_one hwidth).2 hless)

/-- A line runs from the earlier price to the later one. -/
theorem onLine_mono (h : a.time.count < b.time.count) (ht : t ≤ t') :
    (a.price ≤ b.price → onLine a b t ≤ onLine a b t') ∧ (b.price ≤ a.price → onLine a b t' ≤ onLine a b t) := by
  have hwidth : (0 : ℚ) < ((b.time.count - a.time.count : Int) : ℚ) := Int.cast_pos.2 (by omega)
  have hratio : ((t - a.time.count : Int) : ℚ) / ((b.time.count - a.time.count : Int) : ℚ) ≤
      ((t' - a.time.count : Int) : ℚ) / ((b.time.count - a.time.count : Int) : ℚ) :=
    div_le_div_of_nonneg_right (Int.cast_le.2 (by omega)) hwidth.le
  unfold onLine
  constructor
  · intro hprice
    have hrise := mul_le_mul_of_nonneg_left hratio (sub_nonneg.2 hprice)
    linarith
  · intro hprice
    have hfall := mul_le_mul_of_nonpos_left hratio (sub_nonpos.2 hprice)
    linarith

end

/-! ## Parts of a series -/

/-- The price that a walk over the samples from left to right finds: the first one's up to its time, the
line between the two samples that an instant lies between, and the last one's from there on. -/
def scan (t : Int) : List (Sample ℚ) → Option ℚ
  | [] => none
  | [a] => some a.price
  | a :: b :: rest =>
    if t ≤ a.time.count then some a.price
    else if t < b.time.count then some (onLine a b t)
    else scan t (b :: rest)

section

variable [ExactArithmetic]

theorem interpolate_eq {a b : Sample ℚ} {t : Int} (hlo : a.time.count < t) (hhi : t < b.time.count)
    (hspan : b.time.count - a.time.count < 2 ^ 63) : interpolate a b t = onLine a b t := by
  unfold interpolate onLine
  dsimp only
  rw [difference_eq (by omega) (by omega), difference_eq (by omega) hspan]
  rfl

variable {s : Series ℚ}

/-- Where one sample reaches around an instant, its price is the one there. -/
theorem priceAt_alone (hs : s.Ordered) {i : Nat} (hi : i < s.size) {t : Instant}
    (h : s.Around i (i + 1) t.count) : s.priceAt t = .ok s[i].price := by
  rw [← priceAt_extract hs h]
  refine priceAt_const (hs.extract _ _) (by rw [Array.size_extract]; omega) (fun x hx => ?_) t
  obtain ⟨j, hj, rfl⟩ := Array.mem_iff_getElem.1 hx
  have hj' : j = 0 := by rw [Array.size_extract] at hj; omega
  simp [hj']

theorem priceAt_at (hs : s.Ordered) {i : Nat} (hi : i < s.size) {t : Instant} (ht : t.count = s[i].time.count) :
    s.priceAt t = .ok s[i].price := by
  have hcount : s.countAt i = t.count := (countAt_eq hi).trans ht.symm
  exact priceAt_alone hs hi ⟨Nat.lt_succ_self i, hi, .inr hcount.le, .inr hcount.ge⟩

theorem priceAt_before (hs : s.Ordered) (hne : 0 < s.size) {t : Instant} (ht : t.count ≤ s[0].time.count) :
    s.priceAt t = .ok s[0].price := by
  rw [← countAt_eq hne] at ht
  exact priceAt_alone hs hne ⟨Nat.zero_lt_one, hne, .inl rfl, .inr ht⟩

theorem priceAt_behind (hs : s.Ordered) (hne : s.size - 1 < s.size) {t : Instant}
    (ht : s[s.size - 1].time.count ≤ t.count) : s.priceAt t = .ok s[s.size - 1].price := by
  rw [← countAt_eq hne] at ht
  exact priceAt_alone hs hne ⟨Nat.lt_succ_self _, hne, .inr ht, .inl (by omega)⟩

omit [ExactArithmetic] in
theorem Ordered.lt_next (hs : s.Ordered) {i : Nat} (hi : i + 1 < s.size) :
    s[i].time.count < s[i + 1].time.count := by
  have hlt := hs.countAt_lt (Nat.lt_succ_self i) hi
  rwa [countAt_eq (by omega), countAt_eq hi] at hlt

omit [ExactArithmetic] in
/-- No two samples are farther apart than the first and the last one. -/
theorem Ordered.apart_le (hs : s.Ordered) (hne : 0 < s.size) {x y : Sample ℚ} (hx : x ∈ s) (hy : y ∈ s) :
    y.time.count - x.time.count ≤ s[s.size - 1].time.count - s[0].time.count := by
  obtain ⟨i, hi, rfl⟩ := Array.mem_iff_getElem.1 hx
  obtain ⟨j, hj, rfl⟩ := Array.mem_iff_getElem.1 hy
  have hfirst := hs.countAt_le (Nat.zero_le i) hi
  have hlast := hs.countAt_le (show j ≤ s.size - 1 by omega) (by omega)
  rw [countAt_eq hne, countAt_eq hi] at hfirst
  rw [countAt_eq hj, countAt_eq (by omega)] at hlast
  omega

/-- From a sample to the next one the price runs on the line through both. -/
theorem priceAt_segment (hs : s.Ordered) {i : Nat} (hi : i + 1 < s.size)
    (hspan : s[i + 1].time.count - s[i].time.count < 2 ^ 63) {t : Instant} (hlo : s[i].time.count ≤ t.count)
    (hhi : t.count ≤ s[i + 1].time.count) : s.priceAt t = .ok (onLine s[i] s[i + 1] t.count) := by
  rcases hlo.eq_or_lt with heq | hlo
  · rw [priceAt_at hs (by omega) heq.symm, ← heq, onLine_left]
  rcases hhi.eq_or_lt with heq | hhi
  · rw [priceAt_at hs hi heq, heq, onLine_right (hs.lt_next hi)]
  -- strictly between them the two samples reach around the instant
  have hpair : s.extract i (i + 2) = #[s[i], s[i + 1]] := by
    apply Array.ext
    · rw [Array.size_extract]
      show min (i + 2) s.size - i = 2
      omega
    · intro j hj hj'
      rw [Array.getElem_extract]
      match j, hj' with
      | 0, _ => rfl
      | 1, _ => rfl
  have haround : s.Around i (i + 2) t.count := by
    refine ⟨by omega, hi, .inr ?_, .inr ?_⟩
    · rw [countAt_eq (by omega)]
      exact hlo.le
    · rw [show i + 2 - 1 = i + 1 from rfl, countAt_eq hi]
      exact hhi.le
  have hordered := hs.extract i (i + 2)
  rw [← priceAt_extract hs haround]
  rw [hpair] at hordered ⊢
  rw [priceAt_pair hordered hlo hhi, interpolate_eq hlo hhi hspan]

/-- The price at an instant is the one that a scan from left to right finds. -/
theorem priceAt_scan (t : Instant) : ∀ {xs : List (Sample ℚ)}, Ordered xs.toArray → xs ≠ [] →
    (∀ x ∈ xs, ∀ y ∈ xs, y.time.count - x.time.count < 2 ^ 63) →
      ∃ price, scan t.count xs = some price ∧ priceAt xs.toArray t = .ok price
  | [], _, hne, _ => absurd rfl hne
  | [a], hs, _, _ => ⟨a.price, rfl, priceAt_const hs Nat.zero_lt_one (by simp) t⟩
  | a :: b :: rest, hs, _, hspan => by
    unfold scan
    split_ifs with ha hb
    · exact ⟨_, rfl, priceAt_before hs (Nat.succ_pos _) ha⟩
    · have hab := hspan a (by simp) b (by simp)
      have hline := priceAt_segment (i := 0) hs (by simp) hab (not_le.1 ha).le hb.le
      exact ⟨_, rfl, hline⟩
    · -- from the second sample on the first one makes no difference
      have hrest : Ordered (b :: rest).toArray :=
        ⟨fun x hx => hs.known x (by simp at hx ⊢; exact .inr hx), (List.pairwise_cons.1 hs.rising).2⟩
      have hdrop : priceAt (a :: b :: rest).toArray t = priceAt (b :: rest).toArray t :=
        @priceAt_append_right ℚ _ [a] rest b hs t (.inr (not_lt.1 hb))
      rw [hdrop]
      exact priceAt_scan t hrest (List.cons_ne_nil b rest)
        fun x hx y hy => hspan x (List.mem_cons_of_mem a hx) y (List.mem_cons_of_mem a hy)

/-- The price at every instant is positive and the one that a scan finds: that of a sample at its time, that
of the nearest sample outside of the samples, and between two neighbours one on their line, which lies between
their prices and runs from the earlier to the later one. -/
theorem priceAt_piecewise (hs : s.Ordered) (hne : 0 < s.size) (hpos : ∀ x ∈ s, 0 < x.price)
    (hspan : s[s.size - 1].time.count - s[0].time.count < 2 ^ 63) :
    (∀ t : Instant, ∃ price, s.priceAt t = .ok price ∧ scan t.count s.toList = some price ∧ 0 < price) ∧
    (∀ x ∈ s, s.priceAt x.time = .ok x.price) ∧
    (∀ t : Instant, t.count ≤ s[0].time.count → s.priceAt t = .ok s[0].price) ∧
    (∀ t : Instant, s[s.size - 1].time.count ≤ t.count → s.priceAt t = .ok s[s.size - 1].price) ∧
    ∀ i, ∀ hi : i + 1 < s.size,
      (∀ t : Instant, s[i].time.count < t.count → t.count < s[i + 1].time.count →
        ∃ price, s.priceAt t = .ok price ∧ price = onLine s[i] s[i + 1] t.count ∧
          Between s[i].price s[i + 1].price price) ∧
      ∀ t t' : Instant, s[i].time.count ≤ t.count → t.count ≤ t'.count → t'.count ≤ s[i + 1].time.count →
        ∃ price price', s.priceAt t = .ok price ∧ s.priceAt t' = .ok price' ∧
          (s[i].price ≤ s[i + 1].price → price ≤ price') ∧ (s[i + 1].price ≤ s[i].price → price' ≤ price) := by
  have hnear : ∀ x ∈ s, ∀ y ∈ s, y.time.count - x.time.count < 2 ^ 63 := fun x hx y hy =>
    lt_of_le_of_lt (hs.apart_le hne hx hy) hspan
  refine ⟨fun t => ?_, fun x hx => ?_, fun t => priceAt_before hs hne, fun t => priceAt_behind hs (by omega),
    fun i hi => ⟨fun t hlo hhi => ?_, fun t t' hlo hle hhi => ?_⟩⟩
  · have hnil : s.toList ≠ [] := mt Array.toList_eq_nil_iff.1 (Array.size_pos_iff.1 hne)
    obtain ⟨price, hscan, hprice⟩ := @priceAt_scan _ t s.toList hs hnil fun x hx y hy =>
      hnear x (Array.mem_toList_iff.1 hx) y (Array.mem_toList_iff.1 hy)
    obtain ⟨price', hprice', hpositive⟩ := priceAt_pos hs hne hpos hnear t
    obtain rfl : price = price' := Except.ok.inj (hprice.symm.trans hprice')
    exact ⟨price, hprice, hscan, hpositive⟩
  · obtain ⟨i, hi, rfl⟩ := Array.mem_iff_getElem.1 hx
    exact priceAt_at hs hi rfl
  · have hline := priceAt_segment hs hi (hnear _ (Array.getElem_mem _) _ (Array.getElem_mem _)) hlo.le hhi.le
    exact ⟨_, hline, rfl, onLine_between hlo hhi⟩
  · have hapart := hnear _ (Array.getElem_mem (show i < s.size by omega)) _ (Array.getElem_mem hi)
    have hmono := onLine_mono (hs.lt_next hi) hle
    exact ⟨_, _, priceAt_segment hs hi hapart hlo (hle.trans hhi),
      priceAt_segment hs hi hapart (hlo.trans hle) hhi, hmono.1, hmono.2⟩

end

section

local instance openPartsOfScans : ExactArithmetic := default

/-- Halfway between the second and the third of four samples the price is halfway between theirs. -/
theorem fourSamples_piecewise : fourSamples.priceAt (.known 15) = .ok 300 ∧ scan 15 fourSamples.toList = some 300 ∧
    fourSamples.priceAt (.known 20) = .ok 400 ∧ fourSamples.priceAt (.known (-5)) = .ok 100 ∧
    fourSamples.priceAt (.known 99) = .ok 800 := by
  have hpos : ∀ x ∈ fourSamples, 0 < x.price := by simp [fourSamples]
  obtain ⟨hscan, hsample, hbefore, hbehind, hline⟩ :=
    priceAt_piecewise fourSamples_ordered (by decide) hpos (by decide +kernel)
  obtain ⟨price, hprice, heq, -⟩ := (hline 1 (by decide)).1 (.known 15) (by decide +kernel) (by decide +kernel)
  obtain rfl : price = 300 := heq.trans (by norm_num [onLine, fourSamples, Instant.count])
  obtain ⟨price', hprice', hfound, -⟩ := hscan (.known 15)
  obtain rfl : (300 : ℚ) = price' := Except.ok.inj (hprice.symm.trans hprice')
  exact ⟨hprice, hfound, hsample ⟨.known 20, 400⟩ (by simp [fourSamples]), hbefore (.known (-5)) (by decide +kernel),
    hbehind (.known 99) (by decide +kernel)⟩

end

end StrategyLab.Series
