/-
The largest decline of an equity curve. Each decline is taken from the running peak, the largest value
up to its moment (`peak_mem`, `le_peak`), so on a curve of positive values the largest one is the largest
fall from any moment to a later one (`declines_isGreatest`). It is less than 100 percent, zero exactly if
the curve never falls, and no smaller on a longer curve; on every curve it is a percentage
(`drawdown_pairwise`).
-/
import StrategyLab.Proofs.Metrics

namespace StrategyLab.Metrics

/-- The fall from one value to another, in percent of the first. -/
def fall (x y : ℚ) : ℚ := (x - y) / x * 100

/-- The falls from each moment of a curve to itself and to every later one. -/
def falls (xs : List ℚ) : Set ℚ :=
  {d | ∃ i j, ∃ (hij : i ≤ j) (hj : j < xs.length), d = fall xs[i] xs[j]}

theorem fall_self {x : ℚ} : fall x x = 0 := by
  unfold fall
  rw [sub_self, zero_div, zero_mul]

theorem fall_eq {x : ℚ} (hx : 0 < x) (y : ℚ) : fall x y = (1 - y / x) * 100 := by
  unfold fall
  rw [sub_div, div_self hx.ne']

/-- From a higher peak the fall is deeper. -/
theorem fall_le_fall {x p y : ℚ} (hx : 0 < x) (hp : x ≤ p) (hy : 0 < y) : fall x y ≤ fall p y := by
  rw [fall_eq hx, fall_eq (hx.trans_le hp)]
  have hshare : y / p ≤ y / x := div_le_div_of_nonneg_left hy.le hx hp
  linarith

theorem fall_lt {x y : ℚ} (hx : 0 < x) (hy : 0 < y) : fall x y < 100 := by
  rw [fall_eq hx]
  have hshare : 0 < y / x := div_pos hy hx
  linarith

theorem fall_nonpos_iff {x y : ℚ} (hx : 0 < x) : fall x y ≤ 0 ↔ x ≤ y := by
  rw [fall_eq hx, ← one_le_div hx]
  constructor <;> intro h <;> linarith

section Curves

variable [ExactArithmetic]

/-! ## Running peaks -/

theorem peakOf_exact (x y : ℚ) : peakOf x y = max x y := by
  unfold peakOf
  simp only [isUndefined_exact, Bool.false_eq_true, if_false]
  exact Scalar.greatest_exact x y

theorem peak_mem (p : ℚ) (xs : List ℚ) : xs.foldl peakOf p ∈ p :: xs := by
  induction xs generalizing p with
  | nil => exact List.mem_singleton_self p
  | cons x xs ih =>
    rw [List.foldl_cons, peakOf_exact]
    rcases List.mem_cons.1 (ih (max p x)) with h | h
    · rw [h]
      rcases max_choice p x with hmax | hmax <;> simp [hmax]
    · exact List.mem_cons_of_mem _ (List.mem_cons_of_mem _ h)

theorem le_peak {p : ℚ} {xs : List ℚ} : ∀ y ∈ p :: xs, y ≤ xs.foldl peakOf p := by
  induction xs generalizing p with
  | nil => exact fun y hy => (List.mem_singleton.1 hy).le
  | cons x xs ih =>
    rw [List.foldl_cons, peakOf_exact]
    obtain ⟨hfirst, hrest⟩ := List.forall_mem_cons.1 (ih (p := max p x))
    exact List.forall_mem_cons.2 ⟨(le_max_left p x).trans hfirst,
      List.forall_mem_cons.2 ⟨(le_max_right p x).trans hfirst, hrest⟩⟩

/-! ## Declines -/

theorem length_declinesFrom (p : ℚ) (xs : List ℚ) : (declinesFrom p xs).length = xs.length := by
  induction xs generalizing p with
  | nil => rfl
  | cons x xs ih => exact congrArg (· + 1) (ih (peakOf p x))

theorem declinesFrom_append (p : ℚ) (xs ys : List ℚ) :
    declinesFrom p (xs ++ ys) = declinesFrom p xs ++ declinesFrom (xs.foldl peakOf p) ys := by
  induction xs generalizing p with
  | nil => rfl
  | cons x xs ih => exact congrArg (declineFrom (peakOf p x) x :: ·) (ih (peakOf p x))

/-- The decline at a moment is taken from the peak up to that moment. -/
theorem getElem_declinesFrom (p : ℚ) (xs : List ℚ) (j : ℕ) (hj : j < xs.length)
    (hj' : j < (declinesFrom p xs).length) :
    (declinesFrom p xs)[j] = declineFrom ((xs.take (j + 1)).foldl peakOf p) xs[j] := by
  induction xs generalizing p j with
  | nil => cases hj
  | cons x xs ih =>
    cases j with
    | zero => rfl
    | succ j => exact ih (peakOf p x) j (Nat.lt_of_succ_lt_succ hj) (Nat.lt_of_succ_lt_succ hj')

theorem length_declines (xs : List ℚ) : (declines xs).length = xs.length := by
  cases xs with
  | nil => rfl
  | cons x xs => exact length_declinesFrom x (x :: xs)

theorem declineFrom_eq_fall {p : ℚ} (hp : 0 < p) (x : ℚ) : declineFrom p x = fall p x := by
  unfold declineFrom fall
  rw [if_pos (by norm_num; exact hp)]
  norm_num

/-- On a curve of positive values a decline is the fall from the largest value up to its moment. -/
theorem getElem_declines {xs : List ℚ} (hpos : ∀ x ∈ xs, 0 < x) (j : ℕ) (hj : j < xs.length)
    (hj' : j < (declines xs).length) :
    ∃ i, ∃ hij : i ≤ j, (declines xs)[j] = fall xs[i] xs[j] ∧ ∀ k, ∀ hk : k ≤ j, xs[k] ≤ xs[i] := by
  cases xs with
  | nil => cases hj
  | cons first rest =>
    let peak := ((first :: rest).take (j + 1)).foldl peakOf first
    have htaken : first :: (first :: rest).take (j + 1) ⊆ (first :: rest).take (j + 1) := by simp
    obtain ⟨i, hi, hpeak⟩ := List.getElem_of_mem (htaken (peak_mem first ((first :: rest).take (j + 1))))
    rw [List.length_take] at hi
    rw [List.getElem_take] at hpeak
    refine ⟨i, by omega, ?_, fun k hk => ?_⟩
    · rw [hpeak, ← declineFrom_eq_fall]
      · exact getElem_declinesFrom first (first :: rest) j hj hj'
      · rw [← hpeak]
        exact hpos _ (List.getElem_mem _)
    · rw [hpeak]
      refine le_peak _ (List.mem_cons_of_mem _ ?_)
      exact List.mem_take_iff_getElem.2 ⟨k, by omega, rfl⟩

theorem declines_append (x : ℚ) (xs ys : List ℚ) : ∃ more, declines (x :: xs ++ ys) = declines (x :: xs) ++ more :=
  ⟨_, declinesFrom_append x (x :: xs) ys⟩

/-! ## The largest decline -/

theorem drawdown_greatest {xs : List ℚ} (hne : xs ≠ []) :
    ∃ top, IsGreatest {d | d ∈ declines xs} top ∧ drawdown xs = clipPercent top := by
  have hlength := length_declines xs
  unfold drawdown
  cases hdeclines : declines xs with
  | nil =>
    rw [hdeclines] at hlength
    exact absurd (List.length_eq_zero_iff.1 hlength.symm) hne
  | cons d ds => exact ⟨_, ⟨peak_mem d ds, le_peak⟩, rfl⟩

/-- On a curve of positive values the largest decline is the largest fall. -/
theorem declines_isGreatest {xs : List ℚ} (hpos : ∀ x ∈ xs, 0 < x) {top : ℚ}
    (h : IsGreatest {d | d ∈ declines xs} top) : IsGreatest (falls xs) top := by
  obtain ⟨hmem, hbound⟩ := h
  constructor
  · obtain ⟨j, hj', rfl⟩ := List.getElem_of_mem hmem
    have hj : j < xs.length := by rwa [length_declines] at hj'
    obtain ⟨i, hij, hdecline, -⟩ := getElem_declines hpos j hj hj'
    exact ⟨i, j, hij, hj, hdecline⟩
  · rintro _ ⟨i, j, hij, hj, rfl⟩
    have hj' : j < (declines xs).length := by rwa [length_declines]
    obtain ⟨k, hkj, hdecline, hpeak⟩ := getElem_declines hpos j hj hj'
    have hdeeper : fall xs[i] xs[j] ≤ fall xs[k] xs[j] :=
      fall_le_fall (hpos _ (List.getElem_mem _)) (hpeak i hij) (hpos _ (List.getElem_mem _))
    rw [← hdecline] at hdeeper
    exact hdeeper.trans (hbound (List.getElem_mem _))

/-! ## Percentages -/

theorem clipPercent_eq (x : ℚ) : clipPercent x = max 0 (min x 100) := by
  unfold clipPercent
  norm_num
  split_ifs with hneg hlarge
  · rw [max_eq_left ((min_le_left _ _).trans hneg.le)]
  · rw [min_eq_right hlarge.le, max_eq_right (by norm_num)]
  · rw [min_eq_left (not_lt.1 hlarge), max_eq_right (not_lt.1 hneg)]

theorem clipPercent_mem (x : ℚ) : clipPercent x ∈ Set.Icc 0 100 := by
  rw [clipPercent_eq]
  exact ⟨le_max_left _ _, max_le (by norm_num) (min_le_right _ _)⟩

theorem clipPercent_of_mem {x : ℚ} (h : x ∈ Set.Icc 0 100) : clipPercent x = x := by
  rw [clipPercent_eq, min_eq_left h.2, max_eq_right h.1]

theorem clipPercent_mono {x y : ℚ} (h : x ≤ y) : clipPercent x ≤ clipPercent y := by
  rw [clipPercent_eq, clipPercent_eq]
  exact max_le_max le_rfl (min_le_min h le_rfl)

theorem drawdown_mem (xs : List ℚ) : drawdown xs ∈ Set.Icc 0 100 := by
  by_cases hne : xs = []
  · rw [hne]
    change (0.0 : ℚ) ∈ _
    norm_num
  · obtain ⟨top, -, htop⟩ := drawdown_greatest hne
    rw [htop]
    exact clipPercent_mem top

/-- A longer curve has no smaller decline. -/
theorem drawdown_append (xs ys : List ℚ) : drawdown xs ≤ drawdown (xs ++ ys) := by
  cases xs with
  | nil =>
    have hzero : drawdown ([] : List ℚ) = 0 := by
      change (0.0 : ℚ) = 0
      norm_num
    rw [hzero]
    exact (drawdown_mem _).1
  | cons x xs =>
    obtain ⟨top, hgreatest, htop⟩ := drawdown_greatest (List.cons_ne_nil x xs)
    obtain ⟨top', hgreatest', htop'⟩ := drawdown_greatest (List.cons_ne_nil x (xs ++ ys))
    obtain ⟨more, hmore⟩ := declines_append x xs ys
    rw [htop, List.cons_append, htop']
    refine clipPercent_mono (hgreatest.mono hgreatest' fun d hd => ?_)
    change d ∈ declines (x :: xs ++ ys)
    rw [hmore]
    exact List.mem_append_left _ hd

theorem drawdown_isGreatest {xs : List ℚ} (hne : xs ≠ []) (hpos : ∀ x ∈ xs, 0 < x) :
    IsGreatest (falls xs) (drawdown xs) := by
  obtain ⟨top, hdeclines, htop⟩ := drawdown_greatest hne
  have hgreatest := declines_isGreatest hpos hdeclines
  have hlength := List.length_pos_of_ne_nil hne
  have hpercent : top ∈ Set.Icc 0 100 := by
    constructor
    · exact hgreatest.2 ⟨0, 0, le_rfl, hlength, fall_self.symm⟩
    · obtain ⟨i, j, hij, hj, rfl⟩ := hgreatest.1
      exact (fall_lt (hpos _ (List.getElem_mem _)) (hpos _ (List.getElem_mem _))).le
  rwa [htop, clipPercent_of_mem hpercent]

/-- On a curve of positive values the largest decline is the largest fall from any moment to the same
or a later one; it is less than 100 percent, and zero exactly if the curve never falls. Another value
at the end of a curve does not make it smaller, and on every curve it is between 0 and 100. -/
theorem drawdown_pairwise :
    (∀ xs : List ℚ, xs ≠ [] → (∀ x ∈ xs, 0 < x) →
      IsGreatest (falls xs) (drawdown xs) ∧ 0 ≤ drawdown xs ∧ drawdown xs < 100 ∧
        (drawdown xs = 0 ↔ xs.Pairwise (· ≤ ·))) ∧
    (∀ (xs : List ℚ) (x : ℚ), drawdown xs ≤ drawdown (xs ++ [x])) ∧
    ∀ xs : List ℚ, 0 ≤ drawdown xs ∧ drawdown xs ≤ 100 := by
  refine ⟨fun xs hne hpos => ?_, fun xs x => drawdown_append xs [x], drawdown_mem⟩
  have hgreatest := drawdown_isGreatest hne hpos
  have hat : ∀ (i : ℕ) (hi : i < xs.length), 0 < xs[i] := fun i hi => hpos _ (List.getElem_mem _)
  -- the drawdown is the fall between two values, and a fall is positive if and only if the later one is less
  obtain ⟨i, j, hij, hj, hdeepest⟩ := hgreatest.1
  refine ⟨hgreatest, (drawdown_mem xs).1, ?_, ?_⟩
  · rw [hdeepest]
    exact fall_lt (hat i _) (hat j hj)
  · rw [List.pairwise_iff_getElem]
    constructor
    · intro hzero i j hi hj hij
      have hbound : fall xs[i] xs[j] ≤ drawdown xs := hgreatest.2 ⟨i, j, hij.le, hj, rfl⟩
      rw [hzero] at hbound
      exact (fall_nonpos_iff (hat i hi)).1 hbound
    · intro hrises
      refine le_antisymm ?_ (drawdown_mem xs).1
      rw [hdeepest, fall_nonpos_iff (hat i _)]
      rcases hij.lt_or_eq with hlt | rfl
      · exact hrises i j _ hj hlt
      · exact le_rfl

end Curves

/-! ## Two falls -/

local instance openPartsOfDeclines : ExactArithmetic := default

/-- The deeper of two falls starts at the higher of two peaks; a curve that never falls has none. -/
theorem drawdown_twoFalls : drawdown [100, 120, 90, 150, 60, (80 : ℚ)] = 60 ∧
    IsGreatest (falls [100, 120, 90, 150, 60, 80]) 60 ∧ drawdown [50, 50, (80 : ℚ)] = 0 ∧
    drawdown [50, 50, (80 : ℚ)] ≤ drawdown [50, 50, 80, (20 : ℚ)] ∧ drawdown [-4, -2, -6, (0 : ℚ)] ≤ 100 := by
  obtain ⟨hpairwise, happend, hpercent⟩ := drawdown_pairwise
  have hvalue : drawdown [100, 120, 90, 150, 60, (80 : ℚ)] = 60 := by decide +kernel
  obtain ⟨hgreatest, -, -, -⟩ := hpairwise [100, 120, 90, 150, 60, 80] (by simp) (by simp)
  obtain ⟨-, -, -, hzero⟩ := hpairwise [50, 50, 80] (by simp) (by simp)
  rw [hvalue] at hgreatest
  exact ⟨hvalue, hgreatest, hzero.2 (by norm_num), happend [50, 50, 80] 20, (hpercent _).2⟩

end StrategyLab.Metrics
