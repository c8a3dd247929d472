/-
Thinned series and positive prices. Thinning a series moves its samples to the beginnings of their
periods and keeps the order (`thinned_ordered`, `mem_thinned`). In exact arithmetic a series whose
samples are positive has positive prices everywhere (`priceAt_pos`), as long as its samples lie less
than 2^63 nanoseconds apart: the differences of a line are taken in 64 bits.
-/
import StrategyLab.Proofs.Number.Exact
import StrategyLab.Proofs.Price.Oracle

namespace StrategyLab

/-! ## Thinned series -/

namespace Series

variable {α : Type}

theorem period_pos (g : Granularity) : 0 < g.period := by cases g <;> decide

theorem toPeriod_count (g : Granularity) {x : Sample α} {ns : Int} (h : x.time = .known ns) :
    (toPeriod g x).time = .known (ns.fdiv g.period * g.period) := by
  unfold toPeriod; rw [h]

theorem price_toPeriod (g : Granularity) (x : Sample α) : (toPeriod g x).price = x.price := by
  unfold toPeriod; cases x.time <;> rfl

/-- Moving samples to the beginnings of their periods keeps their order. -/
theorem inTime_toPeriod (g : Granularity) {xs : List (Sample α)} (h : InTime xs) :
    InTime (xs.map (toPeriod g)) := by
  constructor
  · intro x hx
    obtain ⟨y, hy, rfl⟩ := List.mem_map.1 hx
    obtain ⟨ns, hns⟩ := h.1 y hy
    exact ⟨_, toPeriod_count g hns⟩
  · rw [List.pairwise_map]
    refine h.2.imp_of_mem fun {a b} ha hb hab => ?_
    obtain ⟨na, hna⟩ := h.1 a ha
    obtain ⟨nb, hnb⟩ := h.1 b hb
    rw [hna, hnb] at hab
    rw [toPeriod_count g hna, toPeriod_count g hnb]
    show na.fdiv g.period * g.period ≤ nb.fdiv g.period * g.period
    rw [Int.fdiv_eq_ediv_of_nonneg _ (period_pos g).le, Int.fdiv_eq_ediv_of_nonneg _ (period_pos g).le]
    have hdiv : na / g.period ≤ nb / g.period := Int.ediv_le_ediv (period_pos g) hab
    exact mul_le_mul_of_nonneg_right hdiv (period_pos g).le

theorem Ordered.inTime {s : Series α} (hs : s.Ordered) : InTime s.toList :=
  ⟨fun x hx => hs.known x (Array.mem_toList_iff.1 hx), hs.rising.imp le_of_lt⟩

theorem Ordered.resample_eq {s : Series α} (hs : s.Ordered) (g : Granularity) :
    s.resample g = (keepLast (s.toList.map (toPeriod g))).toArray := by
  have hknown : (s.toList.filter fun x => x.time != .missing) = s.toList := by
    refine List.filter_eq_self.2 fun x hx => ?_
    obtain ⟨ns, hns⟩ := hs.inTime.1 x hx
    simp [hns]
  unfold resample
  rw [hknown]

end Series

namespace Oracle

variable {α : Type}

/-- Where a sample stands in a thinned series. -/
def moved (g : Option Series.Granularity) (x : Sample α) : Sample α :=
  match g with
  | none => x
  | some g => Series.toPeriod g x

end Oracle

/-! ## Positive prices -/

namespace Series

variable [ExactArithmetic]

omit [ExactArithmetic] in
/-- Differences below half of the 64-bit range are exact. -/
theorem difference_eq {a b : Int} (hlo : 0 ≤ a - b) (hhi : a - b < 2 ^ 63) : difference a b = a - b := by
  unfold difference
  apply Int.bmod_eq_of_le
  · show -((2 ^ 64 : Int) / 2) ≤ a - b
    omega
  · show a - b < ((2 ^ 64 : Int) + 1) / 2
    omega

/-- Between two positive prices the line is positive. -/
theorem interpolate_pos {a b : Sample ℚ} {target : Int} (ha : 0 < a.price) (hb : 0 < b.price)
    (hlo : a.time.count < target) (hhi : target < b.time.count)
    (hspan : b.time.count - a.time.count < 2 ^ 63) : 0 < interpolate a b target := by
  have hwidth : (0 : ℚ) < ((b.time.count - a.time.count : Int) : ℚ) := by exact_mod_cast (by omega : 0 < b.time.count - a.time.count)
  have hpart : (0 : ℚ) < ((target - a.time.count : Int) : ℚ) := by exact_mod_cast (by omega : 0 < target - a.time.count)
  have hless : ((target - a.time.count : Int) : ℚ) < ((b.time.count - a.time.count : Int) : ℚ) := by
    exact_mod_cast (by omega : target - a.time.count < b.time.count - a.time.count)
  have hratio : ((target - a.time.count : Int) : ℚ) / ((b.time.count - a.time.count : Int) : ℚ) < 1 :=
    (div_lt_one hwidth).2 hless
  have hratio0 : 0 < ((target - a.time.count : Int) : ℚ) / ((b.time.count - a.time.count : Int) : ℚ) :=
    div_pos hpart hwidth
  unfold interpolate
  dsimp only
  rw [difference_eq (by omega) (by omega), difference_eq (by omega) hspan]
  show 0 < a.price + (b.price - a.price) * (((target - a.time.count : Int) : ℚ) / ((b.time.count - a.time.count : Int) : ℚ))
  nlinarith

/-- A series of positive samples that are not too far apart has a positive price at every instant. -/
theorem priceAt_pos {s : Series ℚ} (hs : s.Ordered) (hne : 0 < s.size) (hpos : ∀ x ∈ s, 0 < x.price)
    (hspan : ∀ x ∈ s, ∀ y ∈ s, y.time.count - x.time.count < 2 ^ 63) (t : Instant) :
    ∃ price, s.priceAt t = .ok price ∧ 0 < price := by
  rcases hs.priceAt_cases hne t with ⟨x, hx, heq⟩ | ⟨i, hi, hlo, hhi, heq⟩
  · exact ⟨_, heq, hpos x hx⟩
  · have ha : s[i] ∈ s := Array.getElem_mem _
    have hb : s[i + 1] ∈ s := Array.getElem_mem _
    exact ⟨_, heq, interpolate_pos (hpos _ ha) (hpos _ hb) hlo hhi (hspan _ ha _ hb)⟩

end Series

end StrategyLab
