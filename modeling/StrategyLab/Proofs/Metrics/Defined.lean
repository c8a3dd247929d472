/-
Statistics that are always defined. Rational numbers compute among the scalars of any kind as in exact arithmetic, as
long as no division is by zero; and the statistics of a run on rational numbers never need one that is
(`compute_embeds`): each ratio is guarded by a test of what it would be divided by. The square root that exact
arithmetic leaves open need only have no negative values and be zero exactly at zero.

Main statement: the statistics of every run are the same whatever a division by zero is taken to give, they are finite
but for two ratios that may be infinite, and the ratios of a run do not depend on its scale (`compute_defined`).
-/
import StrategyLab.Proofs.Metrics.Drawdown
import StrategyLab.Proofs.Number.Extended

namespace StrategyLab

/-- A number whose scalars are rational numbers, among scalars of another kind. -/
def Num.embed {α : Type} (e : ℚ → α) : Num ℚ → Num α
  | .whole n => .whole n
  | .real x => .real (e x)

/-- A number stands for a finite scalar. -/
def Num.IsFinite {α : Type} [Scalar α] (x : Num α) : Prop := Scalar.isFinite x.value = true

theorem Num.isFinite_embed [ExactArithmetic] (x : Num ℚ) : (x.embed Extended.finite).IsFinite := by
  cases x <;> rfl

/-- A trade in rational numbers, among scalars of another kind. -/
def Trade.embed {α : Type} (e : ℚ → α) (t : Trade ℚ) : Trade α :=
  { t with inputAmount := e t.inputAmount, price := e t.price, fees := e t.fees, gas := e t.gas
           outputAmount := t.outputAmount.map e, slippage := t.slippage.map (Num.embed e) }

namespace Metrics

section Statistics

variable [ExactArithmetic]

/-- The square root has no negative values and is zero exactly at zero. -/
def ProperRoot : Prop := ∀ q : ℚ, 0 ≤ ExactArithmetic.sqrt q ∧ (ExactArithmetic.sqrt q = 0 ↔ q = 0)

/-- Returns of which none is a loss, with a gain on average. -/
def Unbounded (rs : List ℚ) : Prop := rs ≠ [] ∧ (∀ r ∈ rs, 0 ≤ r) ∧ 0 < rs.sum / rs.length

instance (rs : List ℚ) : Decidable (Unbounded rs) := inferInstanceAs (Decidable (_ ∧ _ ∧ _))

/-- The statistics in rational numbers, among scalars of another kind, with the two ratios that may be infinite. -/
def embedded {α : Type} [Scalar α] (e : ℚ → α) (equity : List ℚ) (trades : List (Trade ℚ)) (initial days : ℚ) :
    Metrics (Num α) :=
  let m := compute equity trades initial days
  { m.map (Num.embed e) with
    sortinoRatio := if Unbounded (returns equity) then .real Scalar.infinity else m.sortinoRatio.embed e
    calmarRatio := if drawdown equity = 0 ∧ 0 < days then .real Scalar.infinity else m.calmarRatio.embed e }

section Embedded

variable {α : Type} [Scalar α] {e : ℚ → α} (h : Scalar.Embeds e)

include h

/-! ## Returns -/

theorem returns_embeds : ∀ xs : List ℚ, returns (xs.map e) = (returns xs).map e
  | [] => rfl
  | [_] => rfl
  | x :: y :: rest => by
    have ih := returns_embeds (y :: rest)
    have hstep : ∀ {γ : Type} [Scalar γ] (x y : γ) (rest : List γ), returns (x :: y :: rest) =
        if 0.0 < x then (y - x) / x :: returns (y :: rest) else returns (y :: rest) := fun _ _ _ => rfl
    rw [List.map_cons] at ih
    rw [List.map_cons, List.map_cons, hstep, hstep, ih]
    simp only [h.literal, h.lt, h.sub]
    split_ifs with hpos
    · have hx : x ≠ 0 := by
        norm_num at hpos
        exact hpos.ne'
      rw [h.div _ hx, List.map_cons]
    · rfl

theorem sqrt_year : Scalar.sqrt (e daysPerYear) = e (Scalar.sqrt daysPerYear) :=
  h.sqrt (by norm_num [daysPerYear])

omit [Scalar α] h in
theorem sqrt_year_ne (hroot : ProperRoot) : Scalar.sqrt (daysPerYear : ℚ) ≠ 0 := fun hzero =>
  absurd ((hroot _).2.1 hzero) (by norm_num [daysPerYear])

theorem year_embeds : (daysPerYear : α) = e daysPerYear := h.literal ..

theorem sharpe_embeds (hroot : ProperRoot) (rs : List ℚ) : sharpe (rs.map e) 0.0 = e (sharpe rs 0.0) := by
  unfold sharpe
  rcases eq_or_ne rs [] with rfl | hne
  · exact h.literal ..
  · have hfinite : Scalar.isFinite (Sample.deviation rs) = true := rfl
    rw [List.isEmpty_map, List.isEmpty_eq_false_iff.2 hne]
    simp only [Bool.false_eq_true, if_false, h.deviation hne, h.mean hne, Sample.mean_exact hne, sqrt_year h,
      year_embeds h, h.literal, h.equal, h.isFinite, hfinite, h.mul, h.sub]
    split_ifs with hflat
    · rfl
    · have hspread : Sample.deviation rs ≠ 0 := by
        intro heq
        norm_num [heq] at hflat
      exact h.div _ (mul_ne_zero hspread (sqrt_year_ne hroot))

/-- Returns without a loss and with a gain on average have an infinite ratio. -/
theorem sortino_unbounded {rs : List ℚ} (hrs : Unbounded rs) : sortino (rs.map e) 0.0 = Scalar.infinity := by
  obtain ⟨hne, hgains, hmean⟩ := hrs
  have hlosses : rs.filter ((fun r => decide (r < 0.0)) ∘ e) = [] := by
    refine List.filter_eq_nil_iff.2 fun r hr => ?_
    simp only [Function.comp_apply, h.zero, h.lt, decide_eq_true_eq, not_lt]
    exact hgains r hr
  unfold sortino
  rw [List.isEmpty_map, List.isEmpty_eq_false_iff.2 hne, List.filter_map, hlosses]
  simp [h.mean hne, h.zero, h.lt, hmean]

theorem sortino_bounded {rs : List ℚ} (hrs : ¬Unbounded rs) :
    sortino (rs.map e) 0.0 = e (sortino rs 0.0) := by
  unfold sortino
  rcases eq_or_ne rs [] with rfl | hne
  · exact h.literal ..
  · have hlosses : (rs.map e).filter (fun r => decide (r < 0.0)) = (rs.filter fun r => decide (r < 0.0)).map e := by
      rw [List.filter_map]
      congr 1
      exact List.filter_congr fun r _ => by simp only [Function.comp_apply, h.literal, h.lt]
    have hnone : (rs.filter fun r => decide (r < 0.0)) = [] → ¬0.0 < rs.sum / rs.length := fun hfilter hmean => by
      refine hrs ⟨hne, fun r hr => ?_, by norm_num at hmean; exact hmean⟩
      have hloss := List.filter_eq_nil_iff.1 hfilter r hr
      norm_num at hloss
      exact hloss
    rw [List.isEmpty_map, List.isEmpty_eq_false_iff.2 hne, hlosses]
    generalize (rs.filter fun r => decide (r < 0.0)) = losses at hnone ⊢
    simp only [Bool.false_eq_true, if_false, List.isEmpty_map, h.mean hne, Sample.mean_exact hne, year_embeds h]
    rcases eq_or_ne losses [] with rfl | hsome
    · simp only [List.isEmpty_nil, if_true, h.literal, h.lt, if_neg (hnone rfl)]
    · rw [List.isEmpty_eq_false_iff.2 hsome, h.deviation hsome, sqrt_year h]
      simp only [Bool.false_eq_true, if_false, h.literal, h.equal, h.sub, h.mul]
      split_ifs with hflat
      · rfl
      · refine h.div _ fun heq => hflat ?_
        norm_num [heq]

/-! ## Drawdown -/

theorem peakOf_embeds (x y : ℚ) : peakOf (e x) (e y) = e (peakOf x y) := by
  unfold peakOf Scalar.isUndefined
  simp only [h.equal, h.greatest, Scalar.greatest_exact]
  simp

theorem declineFrom_embeds (peak x : ℚ) : declineFrom (e peak) (e x) = e (declineFrom peak x) := by
  unfold declineFrom
  simp only [h.literal, h.lt, h.sub]
  split_ifs with hpos
  · have hpeak : peak ≠ 0 := by
      norm_num at hpos
      exact hpos.ne'
    rw [h.div _ hpeak, h.mul]
  · rfl

theorem declinesFrom_embeds (xs : List ℚ) :
    ∀ peak : ℚ, declinesFrom (e peak) (xs.map e) = (declinesFrom peak xs).map e := by
  induction xs with
  | nil => exact fun _ => rfl
  | cons x rest ih =>
    intro peak
    rw [List.map_cons]
    unfold declinesFrom
    dsimp only
    rw [peakOf_embeds h, declineFrom_embeds h, ih, List.map_cons]

theorem drawdown_embeds (xs : List ℚ) : drawdown (xs.map e) = e (drawdown xs) := by
  have hdeclines : declines (xs.map e) = (declines xs).map e := by
    cases xs with
    | nil => rfl
    | cons x rest => exact declinesFrom_embeds h (x :: rest) x
  have hpeak (d : ℚ) (ds : List ℚ) : (ds.map e).foldl peakOf (e d) = e (ds.foldl peakOf d) := by
    rw [List.foldl_map]
    exact List.foldl_hom e fun x y => peakOf_embeds h x y
  have hclip (x : ℚ) : clipPercent (e x) = e (clipPercent x) := by
    unfold clipPercent
    simp only [h.literal, h.lt]
    split_ifs <;> rfl
  unfold drawdown
  rw [hdeclines]
  cases declines xs with
  | nil => exact h.literal ..
  | cons d ds => exact (congrArg clipPercent (hpeak d ds)).trans (hclip _)

/-- Without a decline the ratio is infinite, as soon as any time has passed. -/
theorem calmar_unbounded (totalReturn : ℚ) {days : ℚ} (hdays : 0 < days) :
    calmar (e totalReturn) (e 0) (e days) = Scalar.infinity := by
  unfold calmar
  simp only [h.zero, h.le, h.equal, hdays.not_ge, if_false]
  rfl

theorem calmar_bounded (totalReturn : ℚ) {maxDrawdown days : ℚ} (hbounded : ¬(maxDrawdown = 0 ∧ 0 < days)) :
    calmar (e totalReturn) (e maxDrawdown) (e days) = e (calmar totalReturn maxDrawdown days) := by
  unfold calmar
  simp only [year_embeds h, h.literal, h.le, h.equal]
  split_ifs with hdays hzero
  · rfl
  · norm_num at hdays hzero
    exact absurd ⟨hzero, hdays⟩ hbounded
  · norm_num at hdays hzero
    have hpercent : maxDrawdown / 100.0 ≠ 0 := div_ne_zero hzero (by norm_num)
    rw [h.div _ (show (100.0 : ℚ) ≠ 0 by norm_num), h.div _ hdays.ne', h.div _ (show (100.0 : ℚ) ≠ 0 by norm_num), h.mul,
      h.div _ hpercent]

theorem returnPercent_embeds (initial final : ℚ) : returnPercent (e initial) (e final) = e (returnPercent initial final) := by
  unfold returnPercent
  simp only [h.literal, h.lt, h.sub]
  split_ifs with hpos
  · have hinitial : initial ≠ 0 := by
      norm_num at hpos
      exact hpos.ne'
    rw [h.div _ hinitial, h.mul]
  · rfl

/-! ## Trades -/

theorem isWin_embeds (entry exit : Trade ℚ) : isWin (entry.embed e) (exit.embed e) = isWin entry exit := by
  have hclosing : closingValue (entry.embed e) (exit.embed e) = e (closingValue entry exit) := by
    unfold closingValue Trade.embed
    cases exit.outputAmount with
    | none => exact h.mul ..
    | some y =>
      dsimp only [Option.map_some]
      simp only [h.literal, h.equal, h.mul, apply_ite e]
  unfold isWin
  rw [hclosing]
  simp only [Trade.embed, h.mul, h.lt]

theorem totalOf_embeds {cost : Trade ℚ → ℚ} {cost' : Trade α → α} (hcost : ∀ t, cost' (t.embed e) = e (cost t))
    (ts : List (Trade ℚ)) : (Ledger.totalOf cost' (ts.map (Trade.embed e))).value = e (Ledger.totalOf cost ts).value := by
  cases ts with
  | nil => exact h.ofNat 0
  | cons t rest =>
    unfold Ledger.totalOf
    rw [List.map_cons, Num.value_real, Num.value_real, ← List.map_cons, List.foldl_map, h.literal]
    exact List.foldl_hom e fun sum t => by rw [hcost, h.add]

theorem winLoss_embeds (ts : List (Trade ℚ)) : winLoss (ts.map (Trade.embed e)) = winLoss ts :=
  winLoss_map (f := Trade.embed e) (fun _ => rfl) (isWin_embeds h) ts

/-! ## All statistics -/

theorem volatility_embeds (rs : List ℚ) :
    (if (rs.map e).isEmpty then 0.0 else Sample.deviation (rs.map e) * Scalar.sqrt daysPerYear * 100.0) =
      e (if rs.isEmpty then 0.0 else Sample.deviation rs * Scalar.sqrt daysPerYear * 100.0) := by
  rcases eq_or_ne rs [] with rfl | hne
  · exact h.literal ..
  · rw [List.isEmpty_map, List.isEmpty_eq_false_iff.2 hne]
    simp only [Bool.false_eq_true, if_false, h.deviation hne, year_embeds h, sqrt_year h, h.literal, h.mul]

theorem averageReturn_embeds (rs : List ℚ) :
    (if (rs.map e).isEmpty then 0.0 else Sample.mean (rs.map e)) * 100.0 =
      e ((if rs.isEmpty then 0.0 else Sample.mean rs) * 100.0) := by
  rcases eq_or_ne rs [] with rfl | hne
  · simp only [List.map_nil, List.isEmpty_nil, if_true, h.literal, h.mul]
  · rw [List.isEmpty_map, List.isEmpty_eq_false_iff.2 hne]
    simp only [Bool.false_eq_true, if_false, h.mean hne, Sample.mean_exact hne, h.literal, h.mul]

theorem winRate_embeds (wins total : ℕ) : (if 0 < total then Scalar.ofNat wins / Scalar.ofNat total * 100.0 else 0.0) =
    e (if 0 < total then Scalar.ofNat wins / Scalar.ofNat total * 100.0 else 0.0) := by
  split_ifs with htotal
  · rw [h.ofNat, h.ofNat, h.literal, h.div _ (Nat.cast_ne_zero.2 htotal.ne'), h.mul]
    rfl
  · exact h.literal ..

/-- The statistics are those in rational numbers, but for two ratios that may be infinite. -/
theorem compute_embeds (hroot : ProperRoot) (equity : List ℚ) (trades : List (Trade ℚ)) (initial days : ℚ) :
    compute (equity.map e) (trades.map (Trade.embed e)) (e initial) (e days) = embedded e equity trades initial days := by
  have hsortino : Num.real (sortino ((returns equity).map e) 0.0) =
      if Unbounded (returns equity) then .real Scalar.infinity else .real (e (sortino (returns equity) 0.0)) := by
    split_ifs with hunbounded
    · rw [sortino_unbounded h hunbounded]
    · rw [sortino_bounded h hunbounded]
  have hcalmar (totalReturn : ℚ) : Num.real (calmar (e totalReturn) (e (drawdown equity)) (e days)) =
      if drawdown equity = 0 ∧ 0 < days then .real Scalar.infinity
      else .real (e (calmar totalReturn (drawdown equity) days)) := by
    split_ifs with hunbounded
    · rw [hunbounded.1, calmar_unbounded h totalReturn hunbounded.2]
    · rw [calmar_bounded h totalReturn hunbounded]
  unfold compute embedded
  dsimp only [Metrics.map, Num.embed, compute]
  rw [returns_embeds h, final_map e equity initial, returnPercent_embeds h, drawdown_embeds h, winLoss_embeds h,
    sharpe_embeds h hroot, totalOf_embeds h (fun _ => rfl), totalOf_embeds h (fun _ => rfl), volatility_embeds h,
    averageReturn_embeds h, winRate_embeds h, hsortino, hcalmar]

end Embedded

/-! ## Defined statistics -/

/-- The statistics do not see the scale of the curve and of the equity at its start. -/
theorem embedded_scaled {α : Type} [Scalar α] (e : ℚ → α) {c : ℚ} (hc : 0 < c) (equity : List ℚ)
    (trades : List (Trade ℚ)) (initial days : ℚ) :
    embedded e (equity.map (c * ·)) trades (c * initial) days = embedded e equity trades initial days := by
  have hcompute : compute (equity.map (c * ·)) trades (c * initial) days = compute equity trades initial days := by
    unfold compute
    dsimp only
    rw [returns_scaled hc, final_map (c * ·) equity initial, returnPercent_scaled hc, drawdown_scaled hc]
  unfold embedded
  rw [hcompute, returns_scaled hc, drawdown_scaled hc]

/-- The statistics of a run on rational numbers, where a division by zero gives what is chosen for it. -/
def computeDividing (atZero : Extended → Extended) (equity : List ℚ) (trades : List (Trade ℚ)) (initial days : ℚ) :
    Metrics (Num Extended) :=
  letI := Extended.dividing atZero
  compute (equity.map .finite) (trades.map (Trade.embed .finite)) (.finite initial) (.finite days)

theorem computeDividing_eq (hroot : ProperRoot) (atZero : Extended → Extended) (equity : List ℚ) (trades : List (Trade ℚ))
    (initial days : ℚ) :
    computeDividing atZero equity trades initial days = embedded .finite equity trades initial days :=
  letI := Extended.dividing atZero
  compute_embeds (Extended.dividing_embeds atZero) hroot equity trades initial days

/-- The statistics of a run do not depend on what a division by zero gives, so none of them needs one. They are finite but
for two ratios: that per deviation of the losses, if there are returns, none of them a loss and with a gain on average,
and that per largest decline, if there is no decline. On another scale a run has the same statistics. -/
theorem compute_defined (hroot : ProperRoot) (equity : List ℚ) (trades : List (Trade ℚ)) (initial days : ℚ) :
    ∃ m : Metrics (Num Extended),
      (∀ atZero, computeDividing atZero equity trades initial days = m) ∧
      (∀ x ∈ [m.sharpeRatio, m.totalReturn, m.maxDrawdown, m.winTrades, m.totalTrades, m.totalGas, m.totalFees,
        m.volatility, m.averageReturn, m.winRate], x.IsFinite) ∧
      (m.sortinoRatio.IsFinite ∨ m.sortinoRatio = .real (.infinite false) ∧ returns equity ≠ [] ∧
        (∀ r ∈ returns equity, 0 ≤ r) ∧ 0 < (returns equity).sum / (returns equity).length) ∧
      (m.calmarRatio.IsFinite ∨ m.calmarRatio = .real (.infinite false) ∧ m.maxDrawdown = .real (.finite 0) ∧ 0 < days) ∧
      ∀ c, 0 < c → ∀ atZero, computeDividing atZero (equity.map (c * ·)) trades (c * initial) days = m := by
  refine ⟨embedded .finite equity trades initial days, fun atZero => computeDividing_eq hroot .., ?_, ?_, ?_,
    fun c hc atZero => (computeDividing_eq hroot ..).trans (embedded_scaled _ hc ..)⟩
  · let q := compute equity trades initial days
    intro x hx
    obtain ⟨y, -, rfl⟩ := List.mem_map.1 (show x ∈ [q.sharpeRatio, q.totalReturn, q.maxDrawdown, q.winTrades,
        q.totalTrades, q.totalGas, q.totalFees, q.volatility, q.averageReturn, q.winRate].map (Num.embed .finite) from hx)
    exact y.isFinite_embed
  · by_cases hunbounded : Unbounded (returns equity)
    · exact Or.inr ⟨if_pos hunbounded, hunbounded⟩
    · left
      rw [show (embedded Extended.finite equity trades initial days).sortinoRatio = _ from if_neg hunbounded]
      exact Num.isFinite_embed _
  · by_cases hunbounded : drawdown equity = 0 ∧ 0 < days
    · exact Or.inr ⟨if_pos hunbounded, congrArg (fun d => Num.real (Extended.finite d)) hunbounded.1, hunbounded.2⟩
    · left
      rw [show (embedded Extended.finite equity trades initial days).calmarRatio = _ from if_neg hunbounded]
      exact Num.isFinite_embed _

end Statistics

/-! ## A curve that falls -/

local instance openPartsOfStatistics : ExactArithmetic := { (default : ExactArithmetic) with sqrt := abs }

/-- A curve with a fall, a negative value and a zero has finite statistics, the same ones at half the scale. -/
theorem compute_defined_fall : ProperRoot ∧ ∃ m : Metrics (Num Extended),
    (∀ atZero, computeDividing atZero [100, 120, 60, 90, -4, 0] [] 100 30 = m) ∧
    m.sharpeRatio.IsFinite ∧ m.sortinoRatio.IsFinite ∧
    ∀ atZero, computeDividing atZero [50, 60, 30, 45, -2, 0] [] 50 30 = m := by
  have hroot : ProperRoot := fun q => ⟨abs_nonneg q, abs_eq_zero⟩
  obtain ⟨m, hm, hfinite, hsortino, -, hscaled⟩ := compute_defined hroot [100, 120, 60, 90, -4, 0] [] 100 30
  refine ⟨hroot, m, hm, hfinite _ List.mem_cons_self, ?_, fun atZero => ?_⟩
  · rcases hsortino with hsortino | ⟨-, -, hgains, -⟩
    · exact hsortino
    · exact absurd hgains (by decide +kernel)
  · have hhalf := hscaled (1 / 2) (by norm_num) atZero
    norm_num at hhalf
    exact hhalf

end Metrics

end StrategyLab
