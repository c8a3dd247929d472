/-
The log of trades as an audit of the balances, in exact arithmetic. Every trade stands for a flow
into or out of some balances (`Trade.flow`), and a block moves the balances by the flows of the
trades it records and by nothing else (`Ledger.Audited`).
-/
import StrategyLab.Proofs.Block.Handler
import StrategyLab.Proofs.Ledger.Exact

namespace StrategyLab

/-- What a trade adds to the balance of a token. -/
def Trade.flow (t : Trade ℚ) (token : String) : ℚ :=
  let input := if token = t.inputToken then t.inputAmount else 0
  let output := match t.outputToken, t.outputAmount with
    | some out, some amount => if token = out then amount else 0
    | _, _ => 0
  match t.kind with
  | .swap => output - input
  | .supply | .staking | .repay => -input
  | .borrow | .withdraw | .exit => input
  | .liquidity => -input - output
  | .flashLoan => -(0.0009 * input)
  | .other _ => 0

/-- What some trades add to the balance of a token. -/
def Trade.flows (trades : List (Trade ℚ)) (token : String) : ℚ := (trades.map (·.flow token)).sum

theorem Trade.flows_append (xs ys : List (Trade ℚ)) (token : String) :
    Trade.flows (xs ++ ys) token = Trade.flows xs token + Trade.flows ys token := by
  rw [flows, List.map_append, List.sum_append]; rfl

variable [ExactArithmetic]

namespace Ledger

/-- New trades were recorded, and the balances moved by their flows. -/
def Audited (l l' : Ledger ℚ) : Prop :=
  ∃ new, l'.trades = l.trades ++ new ∧ ∀ token, l'.balance token = l.balance token + Trade.flows new token

theorem Audited.refl (l : Ledger ℚ) : l.Audited l :=
  ⟨[], (List.append_nil _).symm, fun _ => (add_zero _).symm⟩

theorem Audited.trans {a b c : Ledger ℚ} (h₁ : a.Audited b) (h₂ : b.Audited c) : a.Audited c := by
  obtain ⟨new₁, ht₁, hb₁⟩ := h₁
  obtain ⟨new₂, ht₂, hb₂⟩ := h₂
  refine ⟨new₁ ++ new₂, by rw [ht₂, ht₁, List.append_assoc], fun token => ?_⟩
  rw [hb₂, hb₁, Trade.flows_append, add_assoc]

/-- Recording the trade that the balances moved by. -/
theorem Audited.record {l l' : Ledger ℚ} {t : NewTrade ℚ} (ht : l'.trades = l.trades)
    (hb : ∀ token, l'.balance token = l.balance token + (l'.nextRecorded t).flow token) :
    l.Audited (l'.recordTrade t) := by
  refine ⟨[l'.nextRecorded t], by rw [trades_recordTrade, ht], fun token => ?_⟩
  rw [balance_recordTrade, hb]
  simp [Trade.flows]

end Ledger

/-! ## Each effect -/

theorem SwapOrder.audited (m : Market ℚ) (o : SwapOrder ℚ) (l : Ledger ℚ) : l.Audited (o.settled m l) := by
  refine .record rfl fun token => ?_
  rw [Ledger.balance_gain_exact, Ledger.balance_pay_exact]
  show _ = l.balance token +
    ((if token = o.outputToken then o.output.1 else 0) - if token = o.inputToken then o.amount else 0)
  ring

namespace Stake

theorem audited_deposited (m : Market ℚ) (s : Stake ℚ) (kind : PositionKind) {trade : TradeKind}
    (htrade : trade = .supply ∨ trade = .staking) (protocol : String) (apy : ℚ) (l : Ledger ℚ) :
    l.Audited (s.deposited m kind trade protocol apy l) := by
  refine .record rfl fun token => ?_
  rw [Ledger.balance_openPosition, Ledger.balance_pay_exact, sub_eq_add_neg]
  rcases htrade with rfl | rfl <;> rfl

theorem audited_borrowed (m : Market ℚ) (s : Stake ℚ) (protocol : String) (apy : ℚ) (l : Ledger ℚ) :
    l.Audited (s.borrowed m protocol apy l) := by
  refine .record rfl fun token => ?_
  rw [Ledger.balance_openPosition, Ledger.balance_gain_exact]
  rfl

theorem audited_flashed (m : Market ℚ) (s : Stake ℚ) (l : Ledger ℚ) :
    l.Audited (s.flashed m (s.amount * Costs.flashLoanRate) l) := by
  refine .record rfl fun token => ?_
  rw [Ledger.balance_pay_exact]
  show _ = l.balance token + -(0.0009 * if token = s.asset then s.amount else 0)
  unfold Costs.flashLoanRate
  split_ifs <;> ring

/-- An empty leg is left out and moves nothing. -/
theorem balance_provided_exact (m : Market ℚ) (pool : String) {leg : Stake ℚ} (hlo : ¬ leg.amount < 0.0)
    (l : Ledger ℚ) (token : String) :
    (leg.provided m pool l).balance token = l.balance token - if token = leg.asset then leg.amount else 0 := by
  unfold provided
  split_ifs with hempty htoken htoken
  · have hzero : leg.amount = 0 := by norm_num at hempty hlo; exact le_antisymm hempty hlo
    rw [hzero, sub_zero]
  · rw [sub_zero]
  · rw [Ledger.balance_openPosition, Ledger.balance_pay_exact, if_pos htoken]
  · rw [Ledger.balance_openPosition, Ledger.balance_pay_exact, if_neg htoken]

theorem audited_pooled (m : Market ℚ) {leg0 leg1 : Stake ℚ} (hlo0 : ¬ leg0.amount < 0.0)
    (hlo1 : ¬ leg1.amount < 0.0) (l : Ledger ℚ) : l.Audited (leg0.pooled m leg1 l) := by
  refine .record (by rw [trades_provided, trades_provided]) fun token => ?_
  rw [balance_provided_exact m _ hlo1, balance_provided_exact m _ hlo0]
  show _ = l.balance token +
    (-(if token = leg0.asset then leg0.amount else 0) - if token = leg1.asset then leg1.amount else 0)
  ring

end Stake

namespace Block

theorem audited_closedAt (m : Market ℚ) (l : Ledger ℚ) (c : Position ℚ × ℚ) : l.Audited (l.closedAt m c) := by
  refine .record rfl fun token => ?_
  rw [Ledger.balance_gain_exact]
  rfl

theorem audited_closings (m : Market ℚ) : ∀ (closings : List (Position ℚ × ℚ)) (l : Ledger ℚ),
    l.Audited (closings.foldl (Ledger.closedAt m) l)
  | [], l => .refl l
  | c :: rest, l => (audited_closedAt m l c).trans (audited_closings m rest _)

/-- Whatever a block does when it fires, its trades account for it. -/
theorem Effect.audited {b : Block ℚ} {m : Market ℚ} {l l' : Ledger ℚ} {kind : BlockKind}
    (h : Effect b m l kind l') : l.Audited l' := by
  cases h with
  | swap => exact SwapOrder.audited ..
  | supply => exact Stake.audited_deposited m _ _ (.inl rfl) ..
  | staking => exact Stake.audited_deposited m _ _ (.inr rfl) ..
  | borrow => exact Stake.audited_borrowed ..
  | repay ho hl =>
    refine .record ((Ledger.trades_pay ..).trans (Ledger.trades_reducePosition hl)) fun token => ?_
    rw [Ledger.balance_pay_exact, Ledger.balance_reducePosition hl, sub_eq_add_neg]
    rfl
  | withdraw ho hl =>
    refine .record ((Ledger.trades_gain ..).trans (Ledger.trades_reducePosition hl)) fun token => ?_
    rw [Ledger.balance_gain_exact, Ledger.balance_reducePosition hl]
    rfl
  | liquidity ho => exact Stake.audited_pooled m (liquidityOrder_ok ho).lo0 (liquidityOrder_ok ho).lo1 l
  | flashLoan ho =>
    obtain ⟨-, rfl, -⟩ := flashLoanOrder_ok ho
    exact Stake.audited_flashed ..
  | exit => exact audited_closings ..
  | report => exact .refl l

/-- The two tokens of a block of liquidity, if it names two, differ. -/
def PoolsTwoTokens (b : Block ℚ) : Prop :=
  b.kind? = some .liquidity → ∀ token, b.text "token0" = .ok token → b.text "token1" ≠ .ok token

theorem PoolsTwoTokens.not_overdraws {b : Block ℚ} (h : b.PoolsTwoTokens) (m : Market ℚ) (l : Ledger ℚ) :
    ¬ b.Overdraws m l := by
  rintro ⟨hk, leg0, leg1, ho, hsame, -⟩
  have hpools := liquidityOrder_ok ho
  exact h hk leg0.asset hpools.token0 (by rw [hsame]; exact hpools.token1)

/-- A block accounts for what it does with its trades, and does nothing unless it fires. -/
theorem execute_audited {b : Block ℚ} {m : Market ℚ} {l l' : Ledger ℚ} {o : Outcome ℚ} (hb : b.PoolsTwoTokens)
    (hwf : l.WF) (h : b.execute m l = (.ok o, l')) : l.Audited l' ∧ (o.fired = false → l' = l) := by
  rcases execute_whole hwf (hb.not_overdraws m l) h with ⟨hf, kind, -, heff⟩ | ⟨-, rfl⟩
  · refine ⟨heff.audited, fun hno => ?_⟩
    rw [hf] at hno; cases hno
  · exact ⟨.refl l', fun _ => rfl⟩

end Block

end StrategyLab
