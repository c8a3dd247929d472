/-
Price series in the order of time, over any scalars. A search by halving finds where a condition
stops holding (`search_splits`); a series built from samples with known times is in order
(`ofSamples_ordered`); and a part of a series that reaches far enough on either side gives the same
price as the whole (`priceAt_extract`), so that a slice around a range of time reads like the
series itself everywhere in the range (`priceAt_sliceAround`).
-/
import Mathlib.Tactic
import StrategyLab.Price.Series

namespace StrategyLab.Series

/-! ## Searching by halving -/

/-- A condition holds below a position and from there on no longer. -/
structure Splits (holds : Nat → Prop) (size position : Nat) : Prop where
  le : position ≤ size
  below : ∀ i < position, holds i
  above : ∀ i, position ≤ i → i < size → ¬ holds i

theorem Splits.unique {holds : Nat → Prop} {size j k : Nat} (hj : Splits holds size j)
    (hk : Splits holds size k) : j = k := by
  rcases lt_trichotomy j k with h | h | h
  · exact absurd (hk.below j h) (hj.above j le_rfl (lt_of_lt_of_le h hk.le))
  · exact h
  · exact absurd (hj.below k h) (hk.above k le_rfl (lt_of_lt_of_le h hj.le))

/-- The invariant of the halving: below `low` the condition holds, from `high` on it does not. -/
theorem search_between {holds : Nat → Bool} {size : Nat}
    (hmono : ∀ i j, i ≤ j → j < size → holds j = true → holds i = true) :
    ∀ low high : Nat, low ≤ high → high ≤ size → (∀ i < low, holds i = true) →
      (∀ i, high ≤ i → i < size → ¬ holds i = true) →
      Splits (fun i => holds i = true) size (search holds low high) := by
  intro low high
  induction low, high using search.induct holds with
  | case1 low high hlt middle hholds ih =>
    intro _ hsize hbelow habove
    rw [search, if_pos hlt]
    simp only [middle] at hholds ih
    rw [if_pos hholds]
    refine ih (by omega) hsize (fun i hi => ?_) habove
    exact hmono i _ (by omega) (by omega) hholds
  | case2 low high hlt middle hholds ih =>
    intro _ hsize hbelow habove
    rw [search, if_pos hlt]
    simp only [middle] at hholds ih
    rw [if_neg hholds]
    refine ih (by omega) (by omega) hbelow fun i hi hsz hi' => ?_
    exact hholds (hmono _ i hi hsz hi')
  | case3 low high hlt =>
    intro hle hsize hbelow habove
    obtain rfl : low = high := by omega
    rw [search, if_neg hlt]
    exact ⟨hsize, hbelow, habove⟩

/-- A search finds where a condition stops holding that never starts again. -/
theorem search_splits {holds : Nat → Bool} {size : Nat}
    (hmono : ∀ i j, i ≤ j → j < size → holds j = true → holds i = true) :
    Splits (fun i => holds i = true) size (search holds 0 size) :=
  search_between hmono 0 size (Nat.zero_le _) le_rfl (fun _ h => absurd h (Nat.not_lt_zero _))
    fun _ h h' => absurd h' (not_lt.2 h)

/-! ## Series in order -/

variable {α : Type}

/-- Every sample has a time, and the times rise. -/
structure Ordered (s : Series α) : Prop where
  known : ∀ x ∈ s, ∃ ns, x.time = .known ns
  rising : s.toList.Pairwise fun a b => a.time.count < b.time.count

theorem countAt_eq {s : Series α} {i : Nat} (h : i < s.size) : s.countAt i = s[i].time.count := by
  unfold countAt; rw [Array.getElem?_eq_getElem h]

theorem Ordered.countAt_lt {s : Series α} (hs : s.Ordered) {i j : Nat} (hij : i < j) (hj : j < s.size) :
    s.countAt i < s.countAt j := by
  have h := List.pairwise_iff_getElem.1 hs.rising i j (by simp; omega) (by simpa using hj) hij
  rw [countAt_eq (by omega), countAt_eq hj]
  simpa using h

theorem Ordered.countAt_le {s : Series α} (hs : s.Ordered) {i j : Nat} (hij : i ≤ j) (hj : j < s.size) :
    s.countAt i ≤ s.countAt j := by
  rcases Nat.lt_or_eq_of_le hij with h | rfl
  · exact (hs.countAt_lt h hj).le
  · exact le_rfl

theorem Ordered.firstFrom_splits {s : Series α} (hs : s.Ordered) (target : Int) :
    Splits (fun i => s.countAt i < target) s.size (s.firstFrom target) := by
  have h := @search_splits (fun i => decide (s.countAt i < target)) s.size
    fun i j hij hj hholds => by
      simp only [decide_eq_true_eq] at hholds ⊢
      exact lt_of_le_of_lt (hs.countAt_le hij hj) hholds
  simp only [decide_eq_true_eq] at h
  exact h

theorem Ordered.firstAfter_splits {s : Series α} (hs : s.Ordered) (target : Int) :
    Splits (fun i => s.countAt i ≤ target) s.size (s.firstAfter target) := by
  have h := @search_splits (fun i => decide (s.countAt i ≤ target)) s.size
    fun i j hij hj hholds => by
      simp only [decide_eq_true_eq] at hholds ⊢
      exact le_trans (hs.countAt_le hij hj) hholds
  simp only [decide_eq_true_eq] at h
  exact h

/-! ## Building a series -/

theorem keepLast_sublist : ∀ xs : List (Sample α), (keepLast xs).Sublist xs
  | [] => .slnil
  | [_] => List.Sublist.refl _
  | a :: b :: rest => by
    rw [keepLast]
    split
    · exact (keepLast_sublist (b :: rest)).cons a
    · exact (keepLast_sublist (b :: rest)).cons_cons a

theorem keepLast_eq_nil : ∀ {xs : List (Sample α)}, keepLast xs = [] → xs = []
  | [], _ => rfl
  | [_], h => h
  | a :: b :: rest, h => by
    rw [keepLast] at h
    split at h
    · exact absurd (keepLast_eq_nil h) (List.cons_ne_nil b rest)
    · cases h

/-- The samples come in the order of their times, every one of which is known. -/
def InTime (xs : List (Sample α)) : Prop :=
  (∀ x ∈ xs, ∃ ns, x.time = .known ns) ∧ xs.Pairwise fun a b => a.time.count ≤ b.time.count

/-- Keeping the last of neighbours at one time leaves no two at one time. -/
theorem keepLast_rising : ∀ {xs : List (Sample α)}, InTime xs →
    (keepLast xs).Pairwise fun a b => a.time.count < b.time.count
  | [], _ => .nil
  | [_], _ => by simp [keepLast]
  | a :: b :: rest, ⟨hknown, hle⟩ => by
    have htail : InTime (b :: rest) :=
      ⟨fun x hx => hknown x (List.mem_cons_of_mem a hx), (List.pairwise_cons.1 hle).2⟩
    have hrest := keepLast_rising htail
    rw [keepLast]
    split
    · exact hrest
    rename_i hne
    refine List.pairwise_cons.2 ⟨fun x hx => ?_, hrest⟩
    -- the next sample is later, and all others are not before that one
    have hab : a.time.count < b.time.count := by
      obtain ⟨na, ha⟩ := hknown a (List.mem_cons_self ..)
      obtain ⟨nb, hb⟩ := hknown b (by simp)
      refine lt_of_le_of_ne ((List.pairwise_cons.1 hle).1 b (by simp)) fun heq => hne ?_
      rw [ha, hb] at heq ⊢
      exact congrArg Instant.known heq
    rcases List.mem_cons.1 ((keepLast_sublist _).subset hx) with rfl | hin
    · exact hab
    · exact lt_of_lt_of_le hab ((List.pairwise_cons.1 htail.2).1 x hin)

theorem keepLast_ordered {xs : List (Sample α)} (h : InTime xs) : Ordered (keepLast xs).toArray := by
  refine ⟨fun x hx => h.1 x ((keepLast_sublist xs).subset ?_), keepLast_rising h⟩
  exact List.mem_toArray.1 hx

theorem keepLast_of_rising : ∀ {xs : List (Sample α)}, xs.Pairwise (fun a b => a.time.count < b.time.count) →
    keepLast xs = xs
  | [], _ => rfl
  | [_], _ => rfl
  | a :: b :: rest, h => by
    obtain ⟨ha, hrest⟩ := List.pairwise_cons.1 h
    have hne : a.time ≠ b.time := fun heq => (ha b (List.mem_cons_self ..)).ne (congrArg Instant.count heq)
    rw [keepLast, if_neg hne, keepLast_of_rising hrest]

theorem comesBefore_trans (a b c : Sample α) (hab : comesBefore a b = true) (hbc : comesBefore b c = true) :
    comesBefore a c = true := by
  unfold comesBefore at *
  cases ha : a.time <;> cases hb : b.time <;> cases hc : c.time <;> simp_all
  omega

theorem comesBefore_total (a b : Sample α) : (comesBefore a b || comesBefore b a) = true := by
  unfold comesBefore
  cases ha : a.time <;> cases hb : b.time <;> simp
  omega

theorem inTime_mergeSort {xs : List (Sample α)} (h : ∀ x ∈ xs, ∃ ns, x.time = .known ns) :
    InTime (xs.mergeSort comesBefore) := by
  have hknown : ∀ x ∈ xs.mergeSort comesBefore, ∃ ns, x.time = .known ns := fun x hx =>
    h x (List.mem_mergeSort.1 hx)
  refine ⟨hknown, ?_⟩
  refine (List.pairwise_mergeSort comesBefore_trans comesBefore_total xs).imp_of_mem fun {a b} ha hb hab => ?_
  obtain ⟨na, hna⟩ := hknown a ha
  obtain ⟨nb, hnb⟩ := hknown b hb
  unfold comesBefore at hab
  rw [hna, hnb] at hab ⊢
  exact of_decide_eq_true hab

section

variable [Scalar α]

/-- A series of samples with known times is in order. -/
theorem ofSamples_ordered {samples : List (Sample α)} (h : ∀ x ∈ samples, ∃ ns, x.time = .known ns) :
    Ordered (ofSamples samples) :=
  keepLast_ordered (inTime_mergeSort fun x hx => h x (List.mem_of_mem_filter hx))

/-- The samples of a series are usable ones that it was built from. -/
theorem mem_ofSamples {samples : List (Sample α)} {x : Sample α} (h : x ∈ ofSamples samples) :
    x ∈ samples ∧ isUsable x.price = true := by
  have hkept := (keepLast_sublist _).subset (List.mem_toArray.1 h)
  exact List.mem_filter.1 (List.mem_mergeSort.1 hkept)

/-- Usable samples at rising times are their own series. -/
theorem ofSamples_of_rising {samples : List (Sample α)} (husable : ∀ x ∈ samples, isUsable x.price = true)
    (hknown : ∀ x ∈ samples, ∃ ns, x.time = .known ns)
    (hrising : samples.Pairwise fun a b => a.time.count < b.time.count) :
    ofSamples samples = samples.toArray := by
  have hsorted : samples.Pairwise fun a b => comesBefore a b = true := by
    refine hrising.imp_of_mem fun {a b} ha hb hlt => ?_
    obtain ⟨na, hna⟩ := hknown a ha
    obtain ⟨nb, hnb⟩ := hknown b hb
    unfold comesBefore
    rw [hna, hnb] at hlt ⊢
    exact decide_eq_true (le_of_lt hlt)
  unfold ofSamples
  rw [List.filter_eq_self.2 husable, List.mergeSort_of_pairwise hsorted, keepLast_of_rising hrising]

/-- A series is empty only without a usable sample. -/
theorem ofSamples_isEmpty_iff {samples : List (Sample α)} :
    (ofSamples samples).isEmpty = true ↔ ∀ x ∈ samples, isUsable x.price = false := by
  rw [Array.isEmpty_iff]
  constructor
  · intro h x hx
    by_contra husable
    have hnil : (samples.filter fun s => isUsable s.price).mergeSort comesBefore = [] :=
      keepLast_eq_nil (congrArg Array.toList h)
    have hmem : x ∈ (samples.filter fun s => isUsable s.price).mergeSort comesBefore :=
      List.mem_mergeSort.2 (List.mem_filter.2 ⟨hx, by simpa using husable⟩)
    rw [hnil] at hmem
    cases hmem
  · intro h
    have hnone : (samples.filter fun s => isUsable s.price) = [] :=
      List.filter_eq_nil_iff.2 fun x hx => by simp [h x hx]
    unfold ofSamples
    rw [hnone, List.mergeSort_nil]
    rfl

end

/-! ## Parts of a series -/

theorem Ordered.extract {s : Series α} (hs : s.Ordered) (low high : Nat) :
    Ordered (s.extract low high) := by
  constructor
  · intro x hx
    obtain ⟨i, hi, rfl⟩ := Array.mem_iff_getElem.1 hx
    rw [Array.getElem_extract]
    exact hs.known _ (Array.getElem_mem _)
  · have hsub : ((s.extract low high).toList).Sublist s.toList := by
      rw [Array.toList_extract]
      exact (List.take_sublist _ _).trans (List.drop_sublist _ _)
    exact hs.rising.sublist hsub

theorem countAt_extract {s : Series α} {low high i : Nat} (hi : low + i < high) (hhigh : high ≤ s.size) :
    countAt (s.extract low high) i = s.countAt (low + i) := by
  have hsize : (s.extract low high).size = high - low := by rw [Array.size_extract]; omega
  rw [countAt_eq (by omega : i < (s.extract low high).size), countAt_eq (by omega), Array.getElem_extract]

/-- A part that reaches from a sample not after an instant to a sample not before it. -/
structure Around (s : Series α) (low high : Nat) (target : Int) : Prop where
  lt : low < high
  le : high ≤ s.size
  left : low = 0 ∨ s.countAt low ≤ target
  right : high = s.size ∨ target ≤ s.countAt (high - 1)

theorem Around.firstFrom_bounds {s : Series α} (hs : s.Ordered) {low high : Nat} {target : Int}
    (h : s.Around low high target) :
    low ≤ s.firstFrom target ∧ (s.firstFrom target < high ∨ high = s.size ∧ s.firstFrom target = high) := by
  obtain ⟨hle, hbelow, habove⟩ := hs.firstFrom_splits target
  have hlt := h.lt
  have hhigh := h.le
  constructor
  · by_contra hlow
    have hlow : s.firstFrom target < low := not_le.1 hlow
    refine habove _ le_rfl (by omega) ?_
    rcases h.left with hzero | hcount
    · omega
    · exact lt_of_lt_of_le (hs.countAt_lt hlow (by omega)) hcount
  · rcases h.right with hall | hcount
    · rcases Nat.lt_or_eq_of_le (show s.firstFrom target ≤ high by omega) with h | h
      · exact .inl h
      · exact .inr ⟨hall, h⟩
    · refine .inl (Nat.lt_of_not_le fun hge => ?_)
      exact absurd (hbelow (high - 1) (by omega)) (not_lt.2 hcount)

theorem Around.firstFrom_extract {s : Series α} (hs : s.Ordered) {low high : Nat} {target : Int}
    (h : s.Around low high target) :
    firstFrom (s.extract low high) target = s.firstFrom target - low := by
  have hlt := h.lt
  have hhigh := h.le
  have hbounds := h.firstFrom_bounds hs
  have hsize : (s.extract low high).size = high - low := by rw [Array.size_extract]; omega
  obtain ⟨hle, hbelow, habove⟩ := hs.firstFrom_splits target
  refine ((hs.extract low high).firstFrom_splits target).unique ⟨by omega, fun i hi => ?_, fun i hi hsz => ?_⟩
  · rw [countAt_extract (by omega) hhigh]
    exact hbelow _ (by omega)
  · rw [countAt_extract (by omega) hhigh]
    exact habove _ (by omega) (by omega)

theorem getElem?_extract_sub {s : Series α} {low high i : Nat} (hlow : low ≤ i) (hhigh : i < high) :
    (s.extract low high)[i - low]? = s[i]? := by
  rw [Array.getElem?_extract]
  split
  · rw [Nat.add_sub_cancel' hlow]
  · rename_i h
    rw [Array.getElem?_eq_none (by omega)]

/-! ## Prices -/

variable [Scalar α]

/-- The price at an instant is that of a sample, or lies on the line between two neighbours of which
one is before the instant and one after it. -/
theorem Ordered.priceAt_cases {s : Series α} (hs : s.Ordered) (hne : 0 < s.size) (t : Instant) :
    (∃ x ∈ s, s.priceAt t = .ok x.price) ∨
    ∃ i, ∃ h : i + 1 < s.size, s[i].time.count < t.count ∧ t.count < s[i + 1].time.count ∧
      s.priceAt t = .ok (interpolate s[i] s[i + 1] t.count) := by
  obtain ⟨hle, hbelow, habove⟩ := hs.firstFrom_splits t.count
  unfold priceAt
  dsimp only
  generalize s.firstFrom t.count = i at hle hbelow habove ⊢
  rcases Nat.lt_or_ge i s.size with hin | hout
  · rw [Array.getElem?_eq_getElem hin]
    dsimp only
    split
    · exact .inl ⟨s[i], Array.getElem_mem hin, rfl⟩
    rename_i hat
    split
    · exact .inl ⟨s[i], Array.getElem_mem hin, rfl⟩
    rename_i hzero
    obtain ⟨j, rfl⟩ := Nat.exists_eq_succ_of_ne_zero hzero
    rw [Nat.succ_sub_one, Array.getElem?_eq_getElem (by omega : j < s.size)]
    have hbefore := hbelow j (Nat.lt_succ_self j)
    have hafter := not_lt.1 (habove _ le_rfl hin)
    rw [countAt_eq (by omega)] at hbefore hafter
    exact .inr ⟨j, hin, hbefore, lt_of_le_of_ne hafter (Ne.symm hat), rfl⟩
  · rw [Array.getElem?_eq_none hout, Array.back?_eq_getElem?, Array.getElem?_eq_getElem (by omega)]
    exact .inl ⟨_, Array.getElem_mem _, rfl⟩

/-- A part that reaches far enough gives the price of the whole series. -/
theorem priceAt_extract {s : Series α} (hs : s.Ordered) {low high : Nat} {t : Instant}
    (h : s.Around low high t.count) : priceAt (s.extract low high) t = s.priceAt t := by
  have hlt := h.lt
  have hhigh := h.le
  obtain ⟨hlow, hright⟩ := h.firstFrom_bounds hs
  unfold priceAt
  simp only [h.firstFrom_extract hs]
  generalize hi : s.firstFrom t.count = i at hlow hright ⊢
  rcases hright with hin | ⟨hall, hout⟩
  · rw [getElem?_extract_sub hlow hin, Array.getElem?_eq_getElem (by omega : i < s.size)]
    dsimp only
    split
    · rfl
    rename_i hne
    -- a first sample that is not at the instant is the first one of the whole series as well
    have hzero : i - low = 0 ↔ i = 0 := by
      refine ⟨fun hz => ?_, fun hz => by omega⟩
      rcases h.left with hl | hl
      · omega
      · obtain rfl : i = low := by omega
        have := (hs.firstFrom_splits t.count).above i (le_of_eq hi) (by omega)
        rw [countAt_eq (by omega)] at hl this
        omega
    by_cases hz : i = 0
    · rw [if_pos (hzero.2 hz), if_pos hz]
    · rw [if_neg (mt hzero.1 hz), if_neg hz]
      have hpos : low < i := by
        have := mt hzero.1 hz
        omega
      rw [show i - low - 1 = (i - 1) - low by omega, getElem?_extract_sub (by omega) (by omega)]
  · have hsize : (s.extract low high).size = high - low := by rw [Array.size_extract]; omega
    rw [Array.getElem?_eq_none (by omega : (s.extract low high).size ≤ i - low),
      Array.getElem?_eq_none (by omega : s.size ≤ i)]
    dsimp only
    rw [Array.back?_eq_getElem?, Array.back?_eq_getElem?, hsize, hall,
      show s.size - low - 1 = s.size - 1 - low by omega, getElem?_extract_sub (by omega) (by omega)]

omit [Scalar α] in
/-- The slice around a range of time is a part that reaches around every instant of the range. -/
theorem sliceAround_eq {s : Series α} (hs : s.Ordered) (hne : 0 < s.size) {start stop : Instant}
    (hle : start.count ≤ stop.count) :
    s.sliceAround start stop = s.extract (s.firstAfter start.count - 1) (min (s.firstFrom stop.count + 1) s.size) ∧
      ∀ target, start.count ≤ target → target ≤ stop.count →
        s.Around (s.firstAfter start.count - 1) (min (s.firstFrom stop.count + 1) s.size) target := by
  obtain ⟨hsize, hbelow, habove⟩ := hs.firstFrom_splits stop.count
  obtain ⟨hsize', hbelow', habove'⟩ := hs.firstAfter_splits start.count
  -- what is not after the start is before the end, but for one sample at both
  have hmono : s.firstAfter start.count ≤ s.firstFrom stop.count + 1 := by
    by_contra hgt
    have hlast := hbelow' (s.firstFrom stop.count + 1) (not_le.1 hgt)
    have hrises := hs.countAt_lt (Nat.lt_succ_self (s.firstFrom stop.count)) (by omega)
    exact habove _ le_rfl (by omega) (lt_of_lt_of_le hrises (hlast.trans hle))
  have hwide : s.firstAfter start.count - 1 < min (s.firstFrom stop.count + 1) s.size := by omega
  refine ⟨by unfold sliceAround; simp only [if_pos hwide],
    fun target h₁ h₂ => ⟨hwide, min_le_right _ _, ?_, ?_⟩⟩
  · by_cases hzero : s.firstAfter start.count = 0
    · exact .inl (by omega)
    · exact .inr (le_trans (hbelow' _ (by omega)) h₁)
  · rcases Nat.lt_or_ge (s.firstFrom stop.count) s.size with hin | hout
    · right
      rw [show min (s.firstFrom stop.count + 1) s.size - 1 = s.firstFrom stop.count by omega]
      exact le_trans h₂ (not_lt.1 (habove _ le_rfl hin))
    · exact .inl (by omega)

omit [Scalar α] in
theorem sliceAround_ordered {s : Series α} (hs : s.Ordered) (hne : 0 < s.size) {start stop : Instant}
    (hle : start.count ≤ stop.count) :
    Ordered (s.sliceAround start stop) ∧ 0 < (s.sliceAround start stop).size := by
  obtain ⟨heq, haround⟩ := sliceAround_eq hs hne hle
  have hwide := (haround _ le_rfl hle).lt
  rw [heq, Array.size_extract]
  exact ⟨hs.extract _ _, by omega⟩

/-- Everywhere in a range of time the slice around it gives the price of the whole series. -/
theorem priceAt_sliceAround {s : Series α} (hs : s.Ordered) (hne : 0 < s.size) {start stop t : Instant}
    (hle : start.count ≤ stop.count) (h₁ : start.count ≤ t.count) (h₂ : t.count ≤ stop.count) :
    (s.sliceAround start stop).priceAt t = s.priceAt t := by
  obtain ⟨heq, haround⟩ := sliceAround_eq hs hne hle
  rw [heq]
  exact priceAt_extract hs (haround _ h₁ h₂)

end StrategyLab.Series
