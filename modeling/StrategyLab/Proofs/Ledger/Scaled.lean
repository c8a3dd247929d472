/-
Accounts in another unit of amount. Every amount of an account is multiplied by one positive factor,
while prices, rates and gas stay. Each operation on the account in the new unit is the operation in the
old one, seen in the new unit: nothing in an account is compared with an absolute amount.
-/
import StrategyLab.Fault
import StrategyLab.Proofs.Agree
import StrategyLab.Proofs.Ledger.Exact

namespace StrategyLab

/-! ## Signs -/

section

variable {c x : ℚ} (hc : 0 < c)

include hc

theorem scaled_nonpos_iff : c * x ≤ 0.0 ↔ x ≤ 0.0 := by
  rw [show (0.0 : ℚ) = c * 0 by norm_num, mul_le_mul_iff_right₀ hc, mul_zero]

theorem scaled_neg_iff : c * x < 0.0 ↔ x < 0.0 := by
  rw [show (0.0 : ℚ) = c * 0 by norm_num, mul_lt_mul_iff_right₀ hc, mul_zero]

theorem scaled_pos_iff : 0.0 < c * x ↔ 0.0 < x := by
  rw [show (0.0 : ℚ) = c * 0 by norm_num, mul_lt_mul_iff_right₀ hc, mul_zero]

theorem scaled_eq_zero_iff : c * x = 0.0 ↔ x = 0.0 := by
  rw [show (0.0 : ℚ) = c * 0 by norm_num, mul_right_inj' hc.ne', mul_zero]

end

/-! ## Amounts in another unit -/

/-- The position in another unit. -/
def Position.scaled (c : ℚ) (p : Position ℚ) : Position ℚ := { p with amount := c * p.amount }

/-- The trade in another unit: price and gas stay. -/
def Trade.scaled (c : ℚ) (t : Trade ℚ) : Trade ℚ :=
  { t with inputAmount := c * t.inputAmount, fees := c * t.fees, outputAmount := t.outputAmount.map (c * ·) }

/-- Faults for one reason, of whatever amounts. -/
def LedgerFault.Same (f g : LedgerFault ℚ) : Prop := f.kind = g.kind ∧ f.isRefusal = g.isRefusal

namespace Ledger

def NewPosition.scaled (c : ℚ) (p : NewPosition ℚ) : NewPosition ℚ := { p with amount := c * p.amount }

def NewTrade.scaled (c : ℚ) (t : NewTrade ℚ) : NewTrade ℚ :=
  { t with inputAmount := c * t.inputAmount, fees := c * t.fees, outputAmount := t.outputAmount.map (c * ·) }

/-- The account in another unit. -/
def scaled (c : ℚ) (l : Ledger ℚ) : Ledger ℚ :=
  { l with
    initialCapital := c * l.initialCapital, balances := l.balances.map fun b => (b.1, c * b.2)
    positions := l.positions.map (Position.scaled c), trades := l.trades.map (Trade.scaled c) }

/-! ## Balances -/

theorem lookup_scaled (c : ℚ) (token : String) (bs : List (String × ℚ)) :
    (bs.map fun b => (b.1, c * b.2)).lookup token = (bs.lookup token).map (c * ·) := by
  induction bs with
  | nil => rfl
  | cons b rest ih =>
    rw [List.map_cons, List.lookup_cons, List.lookup_cons, ih]
    cases token == b.1 <;> rfl

theorem putBalance_scaled (c : ℚ) (token : String) (x : ℚ) (bs : List (String × ℚ)) :
    putBalance token (c * x) (bs.map fun b => (b.1, c * b.2)) =
      (putBalance token x bs).map fun b => (b.1, c * b.2) := by
  induction bs with
  | nil => rfl
  | cons b rest ih =>
    obtain ⟨u, y⟩ := b
    rw [List.map_cons, putBalance, putBalance, ih]
    split <;> rfl

theorem withBalance_scaled (c : ℚ) (l : Ledger ℚ) (token : String) (x : ℚ) :
    (l.scaled c).withBalance token (c * x) = (l.withBalance token x).scaled c := by
  unfold withBalance scaled
  simp only [putBalance_scaled]

/-! ## Positions and trades -/

theorem openPosition_scaled (c : ℚ) (l : Ledger ℚ) (p : NewPosition ℚ) :
    (l.scaled c).openPosition (p.scaled c) = (l.openPosition p).scaled c := by
  unfold openPosition scaled
  simp only [List.map_append, List.map_cons, List.map_nil]
  rfl

theorem recordTrade_scaled (c : ℚ) (l : Ledger ℚ) (t : NewTrade ℚ) :
    (l.scaled c).recordTrade (t.scaled c) = (l.recordTrade t).scaled c := by
  unfold recordTrade scaled
  simp only [List.map_append, List.map_cons, List.map_nil]
  rfl

theorem position?_scaled (c : ℚ) (l : Ledger ℚ) (id : String) :
    (l.scaled c).position? id = (l.position? id).map (Position.scaled c) := by
  unfold position? scaled
  rw [List.find?_map]
  rfl

theorem positionsWith_scaled (c : ℚ) (l : Ledger ℚ) (kind protocol asset : Option String) :
    (l.scaled c).positionsWith kind protocol asset = (l.positionsWith kind protocol asset).map (Position.scaled c) := by
  unfold positionsWith scaled
  rw [List.filter_map]
  rfl

theorem closePosition_scaled (c : ℚ) (l : Ledger ℚ) (id : String) :
    (l.scaled c).closePosition id = (l.closePosition id).map fun r => (r.1.scaled c, r.2.scaled c) := by
  unfold closePosition
  rw [position?_scaled]
  cases l.position? id with
  | none => rfl
  | some p =>
    simp only [Option.map_some, Except.map, scaled, List.filter_map]
    rfl

variable [ExactArithmetic]

theorem balance_scaled (c : ℚ) (l : Ledger ℚ) (token : String) : (l.scaled c).balance token = c * l.balance token := by
  have hlookup : (l.scaled c).balances.lookup token = (l.balances.lookup token).map (c * ·) := lookup_scaled ..
  unfold balance
  rw [hlookup]
  cases l.balances.lookup token with
  | none => simp only [Option.map_none, Option.getD_none]; norm_num
  | some x => rfl

theorem gain_scaled (c : ℚ) (l : Ledger ℚ) (token : String) (x : ℚ) :
    (l.scaled c).gain token (c * x) = (l.gain token x).scaled c := by
  unfold gain
  rw [balance_scaled, ← mul_add, withBalance_scaled]

theorem pay_scaled (c : ℚ) (l : Ledger ℚ) (token : String) (x : ℚ) :
    (l.scaled c).pay token (c * x) = (l.pay token x).scaled c := by
  unfold pay
  rw [balance_scaled, ← mul_sub, withBalance_scaled]

/-! ## Reducing positions -/

section

variable {c : ℚ} (hc : 0 < c)

include hc in
theorem replacePosition_scaled (p : Position ℚ) (ps : List (Position ℚ)) :
    replacePosition (p.scaled c) (ps.map (Position.scaled c)) = (replacePosition p ps).map (Position.scaled c) := by
  have hgone : (p.scaled c).amount ≤ 0.0 ↔ p.amount ≤ 0.0 := scaled_nonpos_iff hc
  unfold replacePosition
  by_cases h : p.amount ≤ 0.0
  · rw [if_pos h, if_pos (hgone.2 h), List.filter_map]
    rfl
  · rw [if_neg h, if_neg (hgone.not.2 h), List.map_map, List.map_map]
    refine List.map_congr_left fun q _ => ?_
    by_cases hq : q.number = p.number
    · simp [Position.scaled, hq]
    · simp [Position.scaled, hq]

include hc in
theorem reducePosition_scaled (l : Ledger ℚ) (id : String) (x : ℚ) :
    Agree LedgerFault.Same (fun r r' => r' = (r.1.scaled c, r.2.scaled c)) (l.reducePosition id (.real x))
      ((l.scaled c).reducePosition id (.real (c * x))) := by
  unfold reducePosition
  rw [position?_scaled]
  cases l.position? id with
  | none => exact .error ⟨rfl, rfl⟩
  | some p =>
    have hcovers : (Num.real (p.scaled c).amount).isLess (.real (c * x)) = (Num.real p.amount).isLess (.real x) := by
      rw [Bool.eq_iff_iff, Num.isLess_iff, Num.isLess_iff]
      exact mul_lt_mul_iff_right₀ hc
    simp only [Option.map_some, hcovers]
    split
    · exact .error ⟨rfl, rfl⟩
    · have hreduced : { p.scaled c with amount := (p.scaled c).amount - c * x } =
          ({ p with amount := p.amount - x } : Position ℚ).scaled c := by
        simp only [Position.scaled, mul_sub]
      refine .ok ?_
      simp only [hreduced, Prod.mk.injEq, true_and]
      unfold scaled
      simp only [replacePosition_scaled hc]

end

/-! ## Interest and worth -/

theorem grown_scaled (c days : ℚ) (p : Position ℚ) : grown days (p.scaled c) = (grown days p).scaled c := by
  unfold grown interest
  by_cases h : p.apy ≤ 0.0
  · have h' : (p.scaled c).apy ≤ 0.0 := h
    simp only [if_pos h, if_pos h']
  · have h' : ¬ (p.scaled c).apy ≤ 0.0 := h
    simp only [if_neg h, if_neg h']
    unfold Position.scaled
    simp only
    generalize p.apy / 365.0 = rate
    congr 1
    ring

theorem accrueInterest_scaled (c : ℚ) (l : Ledger ℚ) (days : Num ℚ) :
    ((l.scaled c).accrueInterest days).2 = (l.accrueInterest days).2.scaled c := by
  rw [accrueInterest_snd, accrueInterest_snd]
  split
  · rfl
  · unfold scaled
    simp only [List.map_map]
    congr 1
    exact List.map_congr_left fun p _ => grown_scaled c _ p

omit [ExactArithmetic] in
theorem worth_scaled (c : ℚ) (w : String → ℚ) (l : Ledger ℚ) : (l.scaled c).worth w = c * l.worth w := by
  have hsigned : ∀ p : Position ℚ, (p.scaled c).signed = c * p.signed := by
    intro p
    unfold Position.signed
    rw [mul_ite, mul_neg]
    rfl
  unfold worth scaled
  simp only [List.map_map, mul_add, ← List.sum_map_mul_left]
  congr 2
  · refine List.map_congr_left fun b _ => ?_
    simp only [Function.comp_apply, mul_assoc]
  · refine List.map_congr_left fun p _ => ?_
    simp only [Function.comp_apply, hsigned, mul_assoc]
    rfl

theorem equity_scaled (c : ℚ) (l : Ledger ℚ) (quotes : Quotes ℚ) : (l.scaled c).equity quotes = c * l.equity quotes := by
  rw [equity_eq_worth, equity_eq_worth, worth_scaled]

/-! ## Costs -/

theorem totalGas_scaled (c : ℚ) (ts : List (Trade ℚ)) :
    totalOf (·.gas) (ts.map (Trade.scaled c)) = totalOf (·.gas) ts := by
  cases ts with
  | nil => rfl
  | cons t rest =>
    show Num.real (((t :: rest).map (Trade.scaled c)).foldl (fun sum t => sum + t.gas) 0.0) = _
    rw [List.foldl_map]
    rfl

theorem totalFees_scaled (c : ℚ) (ts : List (Trade ℚ)) :
    (totalOf (·.fees) (ts.map (Trade.scaled c))).value = c * (totalOf (·.fees) ts).value := by
  cases ts with
  | nil => simp [totalOf]
  | cons t rest =>
    have hfees : ∀ ts : List (Trade ℚ), (ts.map (Trade.scaled c)).map (·.fees) = ts.map fun t => c * t.fees := fun ts => by
      rw [List.map_map]
      rfl
    have htotal : ∀ ts : List (Trade ℚ), ts.foldl (fun sum t => sum + t.fees) 0.0 = (ts.map (·.fees)).sum := fun ts => by
      rw [foldl_add_eq]
      norm_num
    show ((t :: rest).map (Trade.scaled c)).foldl (fun sum t => sum + t.fees) 0.0 =
      c * (t :: rest).foldl (fun sum t => sum + t.fees) 0.0
    rw [htotal, htotal, hfees, List.sum_map_mul_left]

end Ledger

end StrategyLab
