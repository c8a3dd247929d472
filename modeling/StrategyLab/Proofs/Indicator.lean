/-
The relative strength of rises against falls, in exact arithmetic. The weighted means that it compares
are the recursion `w = (1 - 1 / period) * w + c / period` from the first term on (`decaying`), and it is
the share of the one mean in both, in percent (`relativeStrength_eq`). Hence it is bounded, turned around
by a mirrored history, untouched by another scale or origin of the prices, and not lowered by a higher last
price (`relativeStrength_laws`).
-/
import StrategyLab.Indicator
import StrategyLab.Proofs.Number.Exact

namespace StrategyLab

/-! ## The decaying mean -/

namespace Sample

/-- The mean that gives a new term the weight `1 / period`, the old mean keeping the rest. -/
def decayStep (period w c : ℚ) : ℚ := (1 - 1 / period) * w + c / period

/-- The mean that decays, started at the first term. -/
def decaying (period : ℚ) : List ℚ → ℚ
  | [] => 0
  | x :: xs => xs.foldl (decayStep period) x

variable {period : ℚ}

theorem decaying_concat {xs : List ℚ} (hne : xs ≠ []) (c : ℚ) :
    decaying period (xs ++ [c]) = decayStep period (decaying period xs) c := by
  cases xs with
  | nil => exact absurd rfl hne
  | cons x xs => exact List.foldl_append ..

theorem decayStep_nonneg (hperiod : 1 ≤ period) {w c : ℚ} (hw : 0 ≤ w) (hc : 0 ≤ c) : 0 ≤ decayStep period w c := by
  have hpos : 0 < period := zero_lt_one.trans_le hperiod
  have hkept : 0 ≤ 1 - 1 / period := sub_nonneg.2 ((div_le_one hpos).2 hperiod)
  exact add_nonneg (mul_nonneg hkept hw) (div_nonneg hc hpos.le)

theorem decaying_nonneg (hperiod : 1 ≤ period) {xs : List ℚ} (h : ∀ x ∈ xs, 0 ≤ x) : 0 ≤ decaying period xs := by
  induction xs using List.reverseRecOn with
  | nil => exact le_rfl
  | append_singleton xs c ih =>
    have hc : 0 ≤ c := h c (by simp)
    by_cases hne : xs = []
    · subst hne
      exact hc
    · rw [decaying_concat hne]
      exact decayStep_nonneg hperiod (ih fun x hx => h x (List.mem_append_left _ hx)) hc

theorem decaying_scaled (k : ℚ) (xs : List ℚ) : decaying period (xs.map (k * ·)) = k * decaying period xs := by
  induction xs using List.reverseRecOn with
  | nil => exact (mul_zero k).symm
  | append_singleton xs c ih =>
    by_cases hne : xs = []
    · subst hne
      rfl
    · rw [List.map_append, List.map_singleton, decaying_concat (List.map_eq_nil_iff.not.2 hne), decaying_concat hne, ih]
      unfold decayStep
      ring

/-- A mean that decays is the larger, the larger its last term is. -/
theorem decaying_last_mono (hperiod : 1 ≤ period) (terms : List ℚ) {c c' : ℚ} (h : c ≤ c') :
    decaying period (terms ++ [c]) ≤ decaying period (terms ++ [c']) := by
  by_cases hne : terms = []
  · subst hne
    exact h
  · rw [decaying_concat hne, decaying_concat hne]
    unfold decayStep
    gcongr

variable [ExactArithmetic]

/-- The weight of a new term, found by way of the centre of mass, is the one that was given. -/
theorem weightOfCentre_exact {share : ℚ} (hshare : share ≠ 0) : weightOfCentre ((1.0 - share) / share) = share := by
  unfold weightOfCentre
  norm_num
  field_simp
  ring

/-- In exact arithmetic the weighted mean of a period decays. -/
theorem weightedMean_exact (hperiod : 1 ≤ period) {xs : List ℚ} (hne : xs ≠ []) :
    weightedMean (1 / period) xs = decaying period xs := by
  have hpos : 0 < period := zero_lt_one.trans_le hperiod
  have hstep : weighStep (1 / period) = decayStep period := by
    funext w c
    unfold weighStep decayStep
    dsimp only
    split_ifs with hsame
    · -- a term like the mean leaves it as it is
      obtain rfl : w = c := beq_iff_eq.1 hsame
      ring
    · norm_num
      ring
  cases xs with
  | nil => exact absurd rfl hne
  | cons x xs =>
    unfold weightedMean decaying
    rw [hstep]

end Sample

namespace Indicator

open Sample

/-! ## Changes of a history -/

section

variable [ExactArithmetic]

theorem length_changes (prices : List ℚ) : (changes prices).length = prices.length - 1 := by
  induction prices with
  | nil => rfl
  | cons x rest ih =>
    cases rest with
    | nil => rfl
    | cons y rest =>
      rw [changes, List.length_cons, ih]
      rfl

theorem changes_ne_nil {prices : List ℚ} (h : 2 ≤ prices.length) : changes prices ≠ [] := by
  rw [← List.length_pos_iff, length_changes]
  omega

/-- The changes of a history of which every price is turned by a function that turns differences so. -/
theorem changes_map {f g : ℚ → ℚ} (hfg : ∀ x y, f y - f x = g (y - x)) (prices : List ℚ) :
    changes (prices.map f) = (changes prices).map g := by
  induction prices with
  | nil => rfl
  | cons x rest ih =>
    cases rest with
    | nil => rfl
    | cons y rest =>
      rw [List.map_cons] at ih
      rw [List.map_cons, List.map_cons, changes, changes, ih, hfg, List.map_cons]

theorem changes_concat (before : List ℚ) (x y : ℚ) : changes (before ++ [x, y]) = changes (before ++ [x]) ++ [y - x] := by
  induction before with
  | nil => rfl
  | cons z rest ih =>
    cases rest with
    | nil => rfl
    | cons w rest =>
      simp only [List.cons_append] at ih ⊢
      rw [changes, changes, ih, List.cons_append]

theorem rises_eq (deltas : List ℚ) : rises deltas = deltas.map (max · 0) := by
  refine List.map_congr_left fun d _ => ?_
  rw [Scalar.greatest_exact]
  norm_num

theorem falls_eq (deltas : List ℚ) : falls deltas = deltas.map fun d => max (-d) 0 := by
  refine List.map_congr_left fun d _ => ?_
  have hzero : (0.0 : ℚ) = 0 := by norm_num
  unfold Scalar.least
  rw [hzero]
  split_ifs with hd
  · rw [neg_zero, max_eq_right (neg_nonpos.2 hd.le)]
  · rw [max_eq_left (neg_nonneg.2 (not_lt.1 hd))]

/-- The weighted mean of the rises of a history. -/
def gain (period : ℚ) (prices : List ℚ) : ℚ := decaying period (rises (changes prices))

/-- The weighted mean of the falls of a history. -/
def loss (period : ℚ) (prices : List ℚ) : ℚ := decaying period (falls (changes prices))

variable {period : ℚ}

/-- The falls of a history are the rises of the mirrored one. -/
theorem gain_mirrored (c : ℚ) (prices : List ℚ) : gain period (prices.map (c - ·)) = loss period prices := by
  unfold gain loss
  rw [changes_map (g := (- ·)) (fun x y => by ring), rises_eq, falls_eq, List.map_map]
  rfl

theorem loss_mirrored (c : ℚ) (prices : List ℚ) : loss period (prices.map (c - ·)) = gain period prices := by
  rw [← gain_mirrored c, List.map_map]
  simp

theorem gain_nonneg (hperiod : 1 ≤ period) (prices : List ℚ) : 0 ≤ gain period prices := by
  refine decaying_nonneg hperiod fun x hx => ?_
  rw [rises_eq] at hx
  obtain ⟨d, -, rfl⟩ := List.mem_map.1 hx
  exact le_max_right d 0

theorem loss_nonneg (hperiod : 1 ≤ period) (prices : List ℚ) : 0 ≤ loss period prices := by
  rw [← gain_mirrored 0]
  exact gain_nonneg hperiod _

theorem gain_scaled {k : ℚ} (hk : 0 < k) (prices : List ℚ) : gain period (prices.map (k * ·)) = k * gain period prices := by
  unfold gain
  rw [changes_map (g := (k * ·)) (fun x y => by ring), rises_eq, rises_eq, ← decaying_scaled, List.map_map, List.map_map]
  refine congrArg _ (List.map_congr_left fun d _ => ?_)
  rw [Function.comp_apply, Function.comp_apply, mul_max_of_nonneg _ _ hk.le, mul_zero]

theorem loss_scaled {k : ℚ} (hk : 0 < k) (prices : List ℚ) : loss period (prices.map (k * ·)) = k * loss period prices := by
  rw [← gain_mirrored 0, ← gain_mirrored 0, ← gain_scaled hk, List.map_map, List.map_map]
  refine congrArg _ (List.map_congr_left fun x _ => ?_)
  simp only [Function.comp_apply]
  ring

theorem changes_shifted (c : ℚ) (prices : List ℚ) : changes (prices.map (· + c)) = changes prices := by
  rw [changes_map (g := id) (fun x y => by simp), List.map_id]

theorem gain_last_mono (hperiod : 1 ≤ period) (before : List ℚ) (x : ℚ) {y y' : ℚ} (h : y ≤ y') :
    gain period (before ++ [x, y]) ≤ gain period (before ++ [x, y']) := by
  unfold gain
  rw [changes_concat, changes_concat, rises_eq, rises_eq, List.map_append, List.map_append]
  exact decaying_last_mono hperiod _ (max_le_max_right 0 (sub_le_sub_right h x))

theorem loss_last_anti (hperiod : 1 ≤ period) (before : List ℚ) (x : ℚ) {y y' : ℚ} (h : y ≤ y') :
    loss period (before ++ [x, y']) ≤ loss period (before ++ [x, y]) := by
  rw [← gain_mirrored 0, ← gain_mirrored 0, List.map_append, List.map_append]
  exact gain_last_mono hperiod _ (0 - x) (sub_le_sub_left h 0)

end

/-! ## The share of rises -/

/-- The share of the rises in all movement, in percent; 50 without any movement. -/
def share (gain loss : ℚ) : ℚ := if gain + loss = 0 then 50 else gain / (gain + loss) * 100

section

variable {g l : ℚ}

/-- No movement is no rise and no fall. -/
theorem movement_eq_zero (hg : 0 ≤ g) (hl : 0 ≤ l) : g + l = 0 ↔ g = 0 ∧ l = 0 := add_eq_zero_iff_of_nonneg hg hl

theorem share_mem (hg : 0 ≤ g) (hl : 0 ≤ l) : 0 ≤ share g l ∧ share g l ≤ 100 := by
  unfold share
  split_ifs with hzero
  · norm_num
  · have hpos : 0 < g + l := (add_nonneg hg hl).lt_of_ne' hzero
    refine ⟨by positivity, ?_⟩
    have hpart : g / (g + l) ≤ 1 := (div_le_one hpos).2 (le_add_of_nonneg_right hl)
    linarith

theorem share_comm (g l : ℚ) : share l g = 100 - share g l := by
  unfold share
  rw [add_comm l g]
  split_ifs with hzero
  · norm_num
  · field_simp
    ring

theorem share_scaled {k : ℚ} (hk : k ≠ 0) (g l : ℚ) : share (k * g) (k * l) = share g l := by
  unfold share
  rw [← mul_add, mul_div_mul_left _ _ hk]
  simp only [mul_eq_zero, hk, false_or]

/-- More rises and fewer falls do not make the share smaller. -/
theorem share_mono {g' l' : ℚ} (hg : 0 ≤ g) (hl' : 0 ≤ l') (hgg : g ≤ g') (hll : l' ≤ l) : share g l ≤ share g' l' := by
  have hl : 0 ≤ l := hl'.trans hll
  have hg' : 0 ≤ g' := hg.trans hgg
  by_cases hzero : g + l = 0
  · -- from no movement only a rise can come
    obtain ⟨rfl, rfl⟩ := (movement_eq_zero hg hl).1 hzero
    obtain rfl : l' = 0 := le_antisymm hll hl'
    unfold share
    rw [if_pos hzero]
    split_ifs with hsame
    · exact le_rfl
    · rw [add_zero] at hsame ⊢
      rw [div_self hsame]
      norm_num
  · have hpos : 0 < g + l := (add_nonneg hg hl).lt_of_ne' hzero
    by_cases hzero' : g' + l' = 0
    · -- and to no movement only a fall can go
      obtain ⟨rfl, rfl⟩ := (movement_eq_zero hg' hl').1 hzero'
      obtain rfl : g = 0 := le_antisymm hgg hg
      unfold share
      rw [if_pos hzero', if_neg hzero, zero_div]
      norm_num
    · have hpos' : 0 < g' + l' := (add_nonneg hg' hl').lt_of_ne' hzero'
      have hcross : g * l' ≤ g' * l := mul_le_mul hgg hll hl' hg'
      unfold share
      rw [if_neg hzero, if_neg hzero']
      refine mul_le_mul_of_nonneg_right ?_ (by norm_num)
      rw [div_le_div_iff₀ hpos hpos']
      linarith

end

/-! ## Relative strength -/

section

variable [ExactArithmetic]

/-- Of a history of two prices or more the relative strength is the share of its rises. -/
theorem relativeStrength_eq {prices : List ℚ} (h : 2 ≤ prices.length) {period : ℤ} (hperiod : 1 ≤ period) :
    relativeStrength prices period = .ok (some (share (gain period prices) (loss period prices))) := by
  have hone : (1 : ℚ) ≤ period := by exact_mod_cast hperiod
  have hpos : (0 : ℚ) < 1 / period := one_div_pos.2 (zero_lt_one.trans_le hone)
  have hshare : (1.0 : ℚ) / Scalar.ofInt period = 1 / period := by
    norm_num
    rfl
  have hrange : (0.0 : ℚ) < 1 / period ∧ (1 : ℚ) / period ≤ 1.0 := by
    rw [show (0.0 : ℚ) = 0 by norm_num, show (1.0 : ℚ) = 1 by norm_num]
    exact ⟨hpos, (div_le_one (zero_lt_one.trans_le hone)).2 hone⟩
  have hrises : rises (changes prices) ≠ [] := List.map_eq_nil_iff.not.2 (changes_ne_nil h)
  have hfalls : falls (changes prices) ≠ [] := List.map_eq_nil_iff.not.2 (changes_ne_nil h)
  have hg := gain_nonneg hone prices
  have hl := loss_nonneg hone prices
  unfold relativeStrength
  rw [if_neg (by omega), if_neg (by omega)]
  dsimp only
  rw [hshare, if_neg (not_not.2 hrange), weightOfCentre_exact hpos.ne', weightedMean_exact hone hrises,
    weightedMean_exact hone hfalls]
  change (if loss period prices == 0.0 then Except.ok (some (if 0.0 < gain period prices then 100.0 else 50.0))
    else .ok (some (100.0 - 100.0 / (1.0 + gain period prices / loss period prices)))) = _
  unfold share
  generalize gain period prices = g at hg ⊢
  generalize loss period prices = l at hl ⊢
  norm_num
  split_ifs with hnofall hrise hstill hstill hstill
  · linarith
  · rw [hnofall, add_zero, div_self hrise.ne']
    norm_num
  · rfl
  · exact absurd (by linarith) hstill
  · exact absurd ((movement_eq_zero hg hl).1 hstill).2 hnofall
  · have hratio : 1 + g / l = (g + l) / l := by
      rw [add_div, div_self hnofall, add_comm]
    refine congrArg (fun x => Except.ok (some x)) ?_
    rw [hratio, div_div_eq_mul_div, sub_eq_iff_eq_add, div_mul_eq_mul_div, ← add_div, eq_div_iff hstill]
    ring

/-- The laws of relative strength. It has a value from two prices on, a share in percent of the weighted rises, 50
where nothing moved; it is mirrored with the history, does not depend on scale and origin of the prices, and a higher
last price does not lower it. -/
theorem relativeStrength_laws (prices : List ℚ) {period : ℤ} (hperiod : 1 ≤ period) :
    (relativeStrength prices period = .ok none ↔ prices.length < 2) ∧
    (2 ≤ prices.length → ∃ x, relativeStrength prices period = .ok (some x) ∧
      x = share (gain period prices) (loss period prices) ∧ (0 ≤ x ∧ x ≤ 100) ∧
      (gain period prices = 0 → loss period prices = 0 → x = 50) ∧
      (∀ c, relativeStrength (prices.map (c - ·)) period = .ok (some (100 - x))) ∧
      (∀ k, 0 < k → relativeStrength (prices.map (k * ·)) period = .ok (some x)) ∧
      (∀ c, relativeStrength (prices.map (· + c)) period = .ok (some x)) ∧
      ∀ before last higher, prices = before ++ [last] → last ≤ higher →
        ∃ y, relativeStrength (before ++ [higher]) period = .ok (some y) ∧ x ≤ y) := by
  have hone : (1 : ℚ) ≤ period := by exact_mod_cast hperiod
  have hg := gain_nonneg hone prices
  have hl := loss_nonneg hone prices
  constructor
  · constructor
    · intro hnone
      by_contra hmany
      rw [relativeStrength_eq (not_lt.1 hmany) hperiod] at hnone
      cases hnone
    · intro hfew
      unfold relativeStrength
      rw [if_pos hfew]
  · intro hmany
    have hmap : ∀ f : ℚ → ℚ, 2 ≤ (prices.map f).length := fun f => by rwa [List.length_map]
    refine ⟨_, relativeStrength_eq hmany hperiod, rfl, share_mem hg hl, ?_, fun c => ?_, fun k hk => ?_, fun c => ?_, ?_⟩
    · intro hgain hloss
      exact if_pos ((movement_eq_zero hg hl).2 ⟨hgain, hloss⟩)
    · rw [relativeStrength_eq (hmap _) hperiod, gain_mirrored, loss_mirrored, share_comm]
    · rw [relativeStrength_eq (hmap _) hperiod, gain_scaled hk, loss_scaled hk, share_scaled hk.ne']
    · rw [relativeStrength_eq (hmap _) hperiod]
      unfold gain loss
      rw [changes_shifted]
    · rintro before last higher rfl hhigher
      -- there is a price before the last one
      obtain ⟨earlier, x, rfl⟩ : ∃ earlier x, before = earlier ++ [x] := by
        have hne : before ≠ [] := by
          rintro rfl
          exact absurd hmany (Nat.not_succ_le_self 1)
        exact ⟨_, _, (List.dropLast_append_getLast hne).symm⟩
      rw [List.append_assoc] at hg ⊢
      refine ⟨_, relativeStrength_eq (by simp) hperiod, ?_⟩
      rw [List.append_assoc]
      exact share_mono hg (loss_nonneg hone _) (gain_last_mono hone earlier x hhigher)
        (loss_last_anti hone earlier x hhigher)

end

local instance openPartsOfIndicator : ExactArithmetic := default

/-- Up by ten and down by five: two thirds of the weighted movement is a rise, also at ten times the prices; a third
of it is in the mirrored history; and up by ten again is no less. -/
theorem upAndDown_strength : 1 ≤ (2 : ℤ) ∧ relativeStrength [(100 : ℚ), 110, 105] 2 = .ok (some (200 / 3)) ∧
    relativeStrength [(100 : ℚ), 90, 95] 2 = .ok (some (100 / 3)) ∧
    relativeStrength [(1000 : ℚ), 1100, 1050] 2 = .ok (some (200 / 3)) ∧
    ∃ y, relativeStrength [(100 : ℚ), 110, 120] 2 = .ok (some y) ∧ 200 / 3 ≤ y := by
  obtain ⟨x, hx, -, -, -, hmirrored, hscaled, -, hraised⟩ :=
    (relativeStrength_laws [100, 110, 105] (show 1 ≤ (2 : ℤ) by decide)).2 (by decide)
  have hvalue : relativeStrength [(100 : ℚ), 110, 105] 2 = .ok (some (200 / 3 : ℚ)) := by
    rw [relativeStrength_eq (by decide) (by decide), gain, loss, rises_eq, falls_eq]
    norm_num [changes, decaying, decayStep, share]
  rw [hvalue] at hx
  cases hx
  refine ⟨by decide, hvalue, ?_, ?_, ?_⟩
  · have := hmirrored 200
    norm_num at this
    exact this
  · have := hscaled 10 (by norm_num)
    norm_num at this
    exact this
  · exact hraised [100, 110] 105 120 rfl (by norm_num)

end Indicator

end StrategyLab
