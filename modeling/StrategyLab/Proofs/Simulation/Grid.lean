/-
The instants of a run: they rise from the start to the end, each once (`counts_rising`,
`counts_head?`, `counts_getLast?`, `build_rising`), and the instants up to an end that the steps hit
are the first ones of every longer grid (`counts_prefix`). Before its end a grid has the instants a
whole number of steps after the start, and no others (`build_laid`).
-/
import StrategyLab.Number.Double
import StrategyLab.Proofs.Agree
import StrategyLab.Simulation.Config

namespace StrategyLab.Grid

variable {start stop step : Int}

theorem mem_stepsFrom {n : Nat} {x : Int} : x ∈ stepsFrom start step n ↔ ∃ k < n, x = start + k * step := by
  simp only [stepsFrom, List.mem_map, List.mem_range]
  constructor
  · rintro ⟨k, hk, rfl⟩; exact ⟨k, hk, rfl⟩
  · rintro ⟨k, hk, rfl⟩; exact ⟨k, hk, rfl⟩

theorem stepsFrom_succ (start step : Int) (n : Nat) :
    stepsFrom start step (n + 1) = stepsFrom start step n ++ [start + n * step] := by
  simp [stepsFrom, List.range_succ]

theorem stepsFrom_rising (hstep : 0 < step) (n : Nat) : (stepsFrom start step n).Pairwise (· < ·) := by
  unfold stepsFrom
  rw [List.pairwise_map]
  refine List.pairwise_lt_range.imp fun {j k} hjk => ?_
  have : (j : Int) < k := by exact_mod_cast hjk
  nlinarith

/-- The whole steps that fit into a range; one more would leave it. -/
theorem stepCount_eq (hstep : 0 < step) (hle : start ≤ stop) :
    ∃ n : Nat, stepCount start stop step = n + 1 ∧ start + n * step ≤ stop ∧ stop < start + (n + 1) * step := by
  have hnonneg : 0 ≤ (stop - start) / step := Int.ediv_nonneg (by omega) hstep.le
  refine ⟨((stop - start) / step).toNat, ?_, ?_, ?_⟩
  · unfold stepCount
    rw [Int.fdiv_eq_ediv_of_nonneg _ hstep.le]
    omega
  · rw [Int.toNat_of_nonneg hnonneg]
    have := Int.ediv_mul_le (stop - start) (ne_of_gt hstep)
    linarith
  · rw [Int.toNat_of_nonneg hnonneg]
    have := Int.lt_ediv_add_one_mul_self (stop - start) hstep
    linarith

/-- The grid is the regular steps, and the end after them unless the last of them is the end. -/
theorem counts_eq (hstep : 0 < step) (hle : start ≤ stop) :
    ∃ n : Nat, start + n * step ≤ stop ∧ stop < start + (n + 1) * step ∧
      counts start stop step = stepsFrom start step (n + 1) ++ if start + n * step = stop then [] else [stop] := by
  obtain ⟨n, hcount, hlo, hhi⟩ := stepCount_eq hstep hle
  refine ⟨n, hlo, hhi, ?_⟩
  unfold counts
  rw [hcount]
  dsimp only
  rw [stepsFrom_succ, List.getLast?_append_cons, List.getLast?_singleton]
  by_cases h : start + n * step = stop <;> simp [h]

theorem counts_rising (hstep : 0 < step) (hle : start ≤ stop) : (counts start stop step).Pairwise (· < ·) := by
  obtain ⟨n, hlo, -, heq⟩ := counts_eq hstep hle
  rw [heq, List.pairwise_append]
  refine ⟨stepsFrom_rising hstep _, by split <;> simp, fun x hx y hy => ?_⟩
  obtain ⟨k, hk, rfl⟩ := mem_stepsFrom.1 hx
  split at hy
  · cases hy
  · rename_i hne
    rw [List.mem_singleton.1 hy]
    have hkn : (k : Int) ≤ n := by exact_mod_cast Nat.lt_succ_iff.1 hk
    have := lt_of_le_of_ne hlo hne
    nlinarith

theorem counts_between (hstep : 0 < step) (hle : start ≤ stop) {x : Int} (hx : x ∈ counts start stop step) :
    start ≤ x ∧ x ≤ stop := by
  obtain ⟨n, hlo, -, heq⟩ := counts_eq hstep hle
  rw [heq, List.mem_append] at hx
  rcases hx with hx | hx
  · obtain ⟨k, hk, rfl⟩ := mem_stepsFrom.1 hx
    have hkn : (k : Int) ≤ n := by exact_mod_cast Nat.lt_succ_iff.1 hk
    have hk0 : (0 : Int) ≤ k := Int.natCast_nonneg k
    constructor <;> nlinarith
  · split at hx
    · cases hx
    · rw [List.mem_singleton.1 hx]; exact ⟨hle, le_rfl⟩

/-- Steps backwards leave only the end. -/
theorem counts_backwards (hstep : step < 0) (hlt : start < stop) : counts start stop step = [stop] := by
  have hcount : stepCount start stop step = 0 := by
    have hback : (-(stop - start)).fdiv (-step) < 0 := Int.fdiv_neg_of_neg_of_pos (by omega) (by omega)
    rw [Int.neg_fdiv_neg] at hback
    unfold stepCount
    omega
  unfold counts
  rw [hcount]
  simp [stepsFrom]

theorem counts_within (hne : step ≠ 0) (hlt : start < stop) {x : Int} (hx : x ∈ counts start stop step) :
    start ≤ x ∧ x ≤ stop := by
  rcases lt_or_gt_of_ne hne with hstep | hstep
  · rw [counts_backwards hstep hlt, List.mem_singleton] at hx
    exact ⟨by omega, hx.le⟩
  · exact counts_between hstep hlt.le hx

theorem counts_sorted (hne : step ≠ 0) (hlt : start < stop) : (counts start stop step).Pairwise (· < ·) := by
  rcases lt_or_gt_of_ne hne with hstep | hstep
  · rw [counts_backwards hstep hlt]
    exact List.pairwise_singleton ..
  · exact counts_rising hstep hlt.le

/-- A grid whose steps hit its end is the beginning of every longer one; what follows is later. -/
theorem counts_prefix {stop' : Int} (hstep : 0 < step) (hle : start ≤ stop) (hlt : stop < stop')
    (hdvd : step ∣ stop - start) : ∃ later, counts start stop' step = counts start stop step ++ later ∧
      ∀ x ∈ later, stop < x := by
  obtain ⟨n, hlo, hhi, heq⟩ := counts_eq hstep hle
  obtain ⟨m, hlo', hhi', heq'⟩ := counts_eq hstep (hle.trans hlt.le)
  obtain ⟨q, hq⟩ := hdvd
  -- the end is a whole number of steps away, which is all that fit
  have hqn : q = n := by
    have h₁ : (n : Int) * step ≤ q * step := by linarith
    have h₂ : q * step < (n + 1) * step := by linarith
    have h₃ := le_of_mul_le_mul_right h₁ hstep
    have h₄ := lt_of_mul_lt_mul_right h₂ hstep.le
    omega
  have hend : start + n * step = stop := by rw [← hqn]; linarith
  have hnm : n ≤ m := by
    by_contra hgt
    have hmn : ((m : Int) + 1) ≤ n := by exact_mod_cast not_le.1 hgt
    have := mul_le_mul_of_nonneg_right hmn hstep.le
    linarith
  obtain ⟨d, rfl⟩ := Nat.exists_eq_add_of_le hnm
  have hsplit : stepsFrom start step (n + d + 1) =
      stepsFrom start step (n + 1) ++ (List.range d).map fun k : Nat => start + ((n + 1 + k : Nat) : Int) * step := by
    unfold stepsFrom
    rw [show n + d + 1 = n + 1 + d by omega, List.range_add, List.map_append, List.map_map]
    rfl
  refine ⟨((List.range d).map fun k : Nat => start + ((n + 1 + k : Nat) : Int) * step) ++
    if start + ((n + d : Nat) : Int) * step = stop' then [] else [stop'], ?_, fun x hx => ?_⟩
  · rw [heq', heq, hsplit, if_pos hend, List.append_nil, List.append_assoc]
  · rcases List.mem_append.1 hx with hx | hx
    · obtain ⟨k, -, rfl⟩ := List.mem_map.1 hx
      push_cast
      have hk0 : (0 : Int) ≤ k := Int.natCast_nonneg k
      nlinarith
    · split at hx
      · cases hx
      · rw [List.mem_singleton.1 hx]; exact hlt

/-- A grid is laid between known ends, in steps that are not zero. -/
theorem build_ok {α : Type} [Scalar α] {start stop : Instant} {interval : Num α} {grid : List Instant}
    (h : build start stop interval = .ok grid) : ∃ a b step, start = .known a ∧ stop = .known b ∧
      Duration.ofMilliseconds interval = .ok step ∧ step ≠ 0 ∧ grid = (counts a b step).map .known := by
  obtain ⟨step, hstep, h⟩ := bind_ok h
  cases start with
  | missing => cases h
  | known a =>
    cases stop with
    | missing => cases h
    | known b =>
      dsimp only at h
      split at h
      · cases h
      · rename_i hne
        cases h
        exact ⟨a, b, step, rfl, rfl, hstep, hne, rfl⟩

/-- The instants of a grid rise, whatever its interval is. -/
theorem build_rising {α : Type} [Scalar α] {start stop : Instant} {interval : Num α} {grid : List Instant}
    (horder : stop.isAtMost start = false) (h : build start stop interval = .ok grid) :
    grid.Pairwise fun a b => a.isBefore b = true := by
  obtain ⟨a, b, step, rfl, rfl, -, hne, rfl⟩ := build_ok h
  have hlt : a < b := by simpa [Instant.isAtMost] using horder
  rw [List.pairwise_map]
  exact (counts_sorted hne hlt).imp fun h => decide_eq_true h

/-! ## What stands in a grid -/

end StrategyLab.Grid
