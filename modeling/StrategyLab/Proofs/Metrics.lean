/-
Statistics in another unit of amount. Returns and declines are relative to the equity curve they are
taken from, and a pair of trades wins or loses in any unit, so that of all statistics only the sum of the
fees changes (`compute_scaled`).
-/
import StrategyLab.Metrics
import StrategyLab.Proofs.Ledger.Scaled

namespace StrategyLab.Metrics

/-- The statistics in another unit. -/
def scaled [ExactArithmetic] (c : ℚ) (m : Metrics (Num ℚ)) : Metrics (Num ℚ) :=
  { m with totalFees := .real (c * m.totalFees.value) }

/-- An empty curve ends where the run started, and that is changed as well. -/
theorem final_map {α β : Type} (f : α → β) (equity : List α) (initial : α) :
    (equity.map f).getLastD (f initial) = f (equity.getLastD initial) := by
  rw [List.getLastD_eq_getLast?, List.getLastD_eq_getLast?, List.getLast?_map]
  cases equity.getLast? <;> rfl

/-! ## Pairs of trades under a change of amounts -/

section Mapped

variable {α β : Type} {f : Trade α → Trade β} (hkind : ∀ t, (f t).kind = t.kind)

include hkind

theorem pairs_map : ∀ ts : List (Trade α), pairs (ts.map f) = (pairs ts).map fun p => (f p.1, f p.2)
  | [] => rfl
  | [_] => rfl
  | a :: b :: rest => by
    have hstep : ∀ {γ : Type} (a b : Trade γ) (rest : List (Trade γ)), pairs (a :: b :: rest) =
        if opensPair a && closesPair b then (a, b) :: pairs (b :: rest) else pairs (b :: rest) := fun _ _ _ => rfl
    have hopens : opensPair (f a) = opensPair a := by simp only [opensPair, hkind]
    have hcloses : closesPair (f b) = closesPair b := by simp only [closesPair, hkind]
    have ih := pairs_map (b :: rest)
    rw [List.map_cons] at ih
    rw [List.map_cons, List.map_cons, hstep, hstep, hopens, hcloses, ih]
    split <;> rfl

/-- Trades of the same kinds, of which the same pairs win, have the same wins. -/
theorem winLoss_map [Scalar α] [Scalar β] (hwin : ∀ a b, isWin (f a) (f b) = isWin a b) (ts : List (Trade α)) :
    winLoss (ts.map f) = winLoss ts := by
  have hrelevant : (ts.map f).filter isPaired = (ts.filter isPaired).map f := by
    rw [List.filter_map]
    congr 1
    exact List.filter_congr fun t _ => by simp only [Function.comp_apply, isPaired, hkind]
  have hwins : (fun p : Trade β × Trade β => isWin p.1 p.2) ∘ (fun p : Trade α × Trade α => (f p.1, f p.2)) =
      fun p => isWin p.1 p.2 := funext fun p => hwin p.1 p.2
  unfold winLoss
  dsimp only
  rw [hrelevant, pairs_map hkind, List.filter_map, hwins, List.isEmpty_map, List.length_map, List.length_map,
    List.length_map]

end Mapped

variable [ExactArithmetic] {c : ℚ} (hc : 0 < c)

include hc

/-! ## Equity curves -/

theorem returns_scaled : ∀ xs : List ℚ, returns (xs.map (c * ·)) = returns xs
  | [] => rfl
  | [_] => rfl
  | x :: y :: rest => by
    have ih := returns_scaled (y :: rest)
    have hchange : (c * y - c * x) / (c * x) = (y - x) / x := by
      rw [← mul_sub, mul_div_mul_left _ _ hc.ne']
    show (if 0.0 < c * x then (c * y - c * x) / (c * x) :: returns ((y :: rest).map (c * ·)) else
      returns ((y :: rest).map (c * ·))) = returns (x :: y :: rest)
    simp only [scaled_pos_iff hc, hchange, ih]
    rfl

omit hc in
theorem isUndefined_exact (x : ℚ) : Scalar.isUndefined x = false := by
  simp [Scalar.isUndefined]

theorem peakOf_scaled (x y : ℚ) : peakOf (c * x) (c * y) = c * peakOf x y := by
  have hless : c * x < c * y ↔ x < y := mul_lt_mul_iff_right₀ hc
  unfold peakOf Scalar.greatest
  simp only [isUndefined_exact, hless, mul_ite]

theorem declineFrom_scaled (peak x : ℚ) : declineFrom (c * peak) (c * x) = declineFrom peak x := by
  unfold declineFrom
  rw [← mul_sub, mul_div_mul_left _ _ hc.ne']
  simp only [scaled_pos_iff hc]

theorem declinesFrom_scaled (xs : List ℚ) : ∀ peak : ℚ, declinesFrom (c * peak) (xs.map (c * ·)) = declinesFrom peak xs := by
  induction xs with
  | nil => exact fun _ => rfl
  | cons x rest ih =>
    intro peak
    rw [List.map_cons]
    unfold declinesFrom
    dsimp only
    rw [peakOf_scaled hc, declineFrom_scaled hc, ih]

theorem drawdown_scaled (xs : List ℚ) : drawdown (xs.map (c * ·)) = drawdown xs := by
  have hdeclines : declines (xs.map (c * ·)) = declines xs := by
    cases xs with
    | nil => rfl
    | cons x rest => exact declinesFrom_scaled hc (x :: rest) x
  unfold drawdown
  rw [hdeclines]

theorem returnPercent_scaled (initial final : ℚ) : returnPercent (c * initial) (c * final) = returnPercent initial final := by
  unfold returnPercent
  rw [← mul_sub, mul_div_mul_left _ _ hc.ne']
  simp only [scaled_pos_iff hc]

/-! ## Pairs of trades -/

theorem closingValue_scaled (entry exit : Trade ℚ) :
    closingValue (entry.scaled c) (exit.scaled c) = c * closingValue entry exit := by
  have hinput : (entry.scaled c).inputAmount * (exit.scaled c).price = c * (entry.inputAmount * exit.price) :=
    mul_assoc ..
  have houtput : (exit.scaled c).outputAmount = exit.outputAmount.map (c * ·) := rfl
  unfold closingValue
  rw [houtput, hinput]
  cases exit.outputAmount with
  | none => rfl
  | some y =>
    have hzero : (c * y == 0.0) = (y == 0.0) := by
      rw [Bool.eq_iff_iff, beq_iff_eq, beq_iff_eq]
      exact scaled_eq_zero_iff hc
    dsimp only [Option.map_some]
    rw [hzero, mul_ite]
    exact if_congr Iff.rfl rfl (mul_assoc ..)

theorem isWin_scaled (entry exit : Trade ℚ) : isWin (entry.scaled c) (exit.scaled c) = isWin entry exit := by
  have hpaid : (entry.scaled c).inputAmount * (entry.scaled c).price = c * (entry.inputAmount * entry.price) :=
    mul_assoc ..
  unfold isWin
  rw [closingValue_scaled hc, hpaid]
  exact decide_eq_decide.2 (mul_lt_mul_iff_right₀ hc)

theorem winLoss_scaled (ts : List (Trade ℚ)) : winLoss (ts.map (Trade.scaled c)) = winLoss ts :=
  winLoss_map (f := Trade.scaled c) (fun _ => rfl) (isWin_scaled hc) ts

/-! ## All statistics -/

/-- Of all statistics only the fees depend on the unit. -/
theorem compute_scaled (equity : List ℚ) (ts : List (Trade ℚ)) (initial days : ℚ) :
    compute (equity.map (c * ·)) (ts.map (Trade.scaled c)) (c * initial) days =
      (compute equity ts initial days).scaled c := by
  have hfinal := final_map (c * ·) equity initial
  have hfees := Ledger.totalFees_scaled c ts
  have hgas := Ledger.totalGas_scaled c ts
  unfold compute
  dsimp only
  rw [returns_scaled hc, hfinal, returnPercent_scaled hc, drawdown_scaled hc, winLoss_scaled hc, hgas, hfees]
  rfl

end StrategyLab.Metrics
