/-
What a block that fires does to the holdings of each token in exact arithmetic. Value moves between
balances, asset positions and debts, and only a swap and the fee of a flash loan change what the
account holds (`NetChange`), so that every other block leaves the equity as it was.
-/
import StrategyLab.Proofs.Block.Atomicity
import StrategyLab.Proofs.Block.Steps

namespace StrategyLab

section

variable [ExactArithmetic]

/-! ## Worth after each effect -/

/-- The output of a swap, written out. -/
theorem SwapOrder.output_exact (o : SwapOrder ℚ) : o.output.1 =
    o.amount * (o.priceIn / o.priceOut) * o.exchange.rateBonus * (1 - o.exchange.feeRate) * (1 - o.slippage / 100) := by
  unfold SwapOrder.output SwapOrder.naiveOutput Costs.afterFeeAndSlippage
  norm_num
  ring

theorem SwapOrder.worth_settled (w : String → ℚ) (m : Market ℚ) (o : SwapOrder ℚ) (l : Ledger ℚ) :
    (o.settled m l).worth w = l.worth w - o.amount * w o.inputToken + o.output.1 * w o.outputToken := by
  rw [SwapOrder.settled, Ledger.worth_recordTrade, Ledger.worth_gain, Ledger.worth_pay]

namespace Stake

theorem worth_flashed (w : String → ℚ) (m : Market ℚ) (s : Stake ℚ) (fee : ℚ) (l : Ledger ℚ) :
    (s.flashed m fee l).worth w = l.worth w - fee * w s.asset := by
  rw [flashed, Ledger.worth_recordTrade, Ledger.worth_pay]

theorem worth_deposited (w : String → ℚ) (m : Market ℚ) (s : Stake ℚ) {kind : PositionKind} (hk : kind ≠ .borrow)
    (trade : TradeKind) (protocol : String) (apy : ℚ) (l : Ledger ℚ) :
    (s.deposited m kind trade protocol apy l).worth w = l.worth w := by
  have hsigned : ((l.pay s.asset s.amount).nextOpened (s.position m kind protocol apy)).signed = s.amount := by
    unfold Position.signed Position.isLiability Ledger.nextOpened Stake.position
    rw [if_neg (by simpa using hk)]
  rw [deposited, Ledger.worth_recordTrade, Ledger.worth_openPosition, Ledger.worth_pay, hsigned, Stake.position]
  ring

theorem worth_borrowed (w : String → ℚ) (m : Market ℚ) (s : Stake ℚ) (protocol : String) (apy : ℚ) (l : Ledger ℚ) :
    (s.borrowed m protocol apy l).worth w = l.worth w := by
  have hsigned : ((l.gain s.asset s.amount).nextOpened (s.position m .borrow protocol apy)).signed = -s.amount := rfl
  rw [borrowed, Ledger.worth_recordTrade, Ledger.worth_openPosition, Ledger.worth_gain, hsigned, Stake.position]
  ring

theorem worth_provided (w : String → ℚ) (m : Market ℚ) (pool : String) (leg : Stake ℚ) (l : Ledger ℚ) :
    (leg.provided m pool l).worth w = l.worth w := by
  have hsigned : ((l.pay leg.asset leg.amount).nextOpened (leg.position m .liquidity pool 0.0)).signed = leg.amount :=
    rfl
  unfold provided
  split_ifs
  · rfl
  · rw [Ledger.worth_openPosition, Ledger.worth_pay, hsigned, Stake.position]
    ring

theorem worth_pooled (w : String → ℚ) (m : Market ℚ) (leg0 leg1 : Stake ℚ) (l : Ledger ℚ) :
    (leg0.pooled m leg1 l).worth w = l.worth w := by
  rw [pooled, Ledger.worth_recordTrade, worth_provided, worth_provided]

end Stake

namespace Block

/-- Closing an asset position moves its amount to the balance. -/
theorem worth_closedAt (w : String → ℚ) (m : Market ℚ) {l : Ledger ℚ} (hwf : l.WF) {c : Position ℚ × ℚ}
    (hc : c.1 ∈ l.positions) (hasset : c.1.isLiability = false) : (l.closedAt m c).worth w = l.worth w := by
  rw [Ledger.closedAt, Ledger.worth_recordTrade, Ledger.worth_gain, Ledger.worth_without w hwf hc,
    Position.signed, hasset]
  norm_num

theorem worth_closings (w : String → ℚ) (m : Market ℚ) : ∀ (closings : List (Position ℚ × ℚ)) {l : Ledger ℚ},
    l.WF → (closings.map (·.1)).Sublist l.positions → (∀ c ∈ closings, c.1.isLiability = false) →
      (closings.foldl (Ledger.closedAt m) l).worth w = l.worth w
  | [], _, _, _, _ => rfl
  | c :: rest, l, hwf, hopen, hassets => by
    rw [List.foldl_cons, worth_closings w m rest (closedAt_wf hwf c) (rest_open hwf hopen c.2)
      fun c' hc' => hassets c' (List.mem_cons_of_mem c hc')]
    exact worth_closedAt w m hwf (hopen.subset (List.mem_cons_self ..)) (hassets c (List.mem_cons_self ..))

/-- No block but a swap and a flash loan changes what an account is worth, at any weights. -/
theorem Effect.worth_eq {b : Block ℚ} {m : Market ℚ} {l l' : Ledger ℚ} {kind : BlockKind} (hwf : l.WF)
    (h : Effect b m l kind l') (hswap : ∀ e, kind ≠ .swap e) (hflash : kind ≠ .flashLoan) (w : String → ℚ) :
    l'.worth w = l.worth w := by
  cases h with
  | @swap e => exact absurd rfl (hswap e)
  | supply => exact Stake.worth_deposited w m _ (by decide) ..
  | staking => exact Stake.worth_deposited w m _ (by decide) ..
  | borrow => exact Stake.worth_borrowed ..
  | repay ho hl =>
    obtain ⟨hmem, hkind, -, hasset⟩ := Ledger.positionsWith_head? .borrow (repayOrder_ok ho).2.2.1
    rw [Ledger.worth_recordTrade, Ledger.worth_pay, Ledger.worth_reducePosition w hwf hmem hl, hasset,
      Position.isLiability, hkind, if_pos (by decide)]
    ring
  | withdraw ho hl =>
    obtain ⟨hmem, hkind, -, hasset⟩ := Ledger.positionsWith_head? .supply (withdrawOrder_ok ho).2.1
    rw [Ledger.worth_recordTrade, Ledger.worth_gain, Ledger.worth_reducePosition w hwf hmem hl, hasset,
      Position.isLiability, hkind, if_neg (by decide)]
    ring
  | liquidity => exact Stake.worth_pooled ..
  | flashLoan => exact absurd rfl hflash
  | @exit _ closings _ _ hsub =>
    -- an exit looks at asset positions only
    have hassets : ∀ c ∈ closings, c.1.isLiability = false := by
      intro c hc
      have hlooked := List.mem_filter.1 (hsub.subset (List.mem_map_of_mem hc))
      simp only [Bool.and_eq_true, Bool.not_eq_true'] at hlooked
      exact hlooked.2.1
    exact worth_closings w m closings hwf (hsub.trans List.filter_sublist) hassets
  | report => rfl

/-! ## Holdings of each token -/

/-- What a fired block of a kind adds to the holdings of each token. -/
def NetChange (b : Block ℚ) (m : Market ℚ) (l : Ledger ℚ) (kind : BlockKind) (change : String → ℚ) : Prop :=
  match kind with
  | .swap e => ∃ o : SwapOrder ℚ, Swaps e b m l o ∧ ∀ token, change token =
      (if token = o.inputToken then -o.amount else 0) +
      (if token = o.outputToken then
        o.amount * (o.priceIn / o.priceOut) * e.rateBonus * (1 - e.feeRate) * (1 - o.slippage / 100) else 0)
  | .flashLoan => ∃ asset amount, b.text "asset" = .ok asset ∧ b.positive "amount" none = .ok amount ∧
      ∀ token, change token = if token = asset then -(0.0009 * amount) else 0
  | _ => ∀ token, change token = 0

theorem netChange_zero (b : Block ℚ) (m : Market ℚ) (l : Ledger ℚ) {kind : BlockKind}
    {change : String → ℚ} (hswap : ∀ e, kind ≠ .swap e) (hflash : kind ≠ .flashLoan)
    (h : ∀ token, change token = 0) : NetChange b m l kind change := by
  cases kind with
  | swap e => exact absurd rfl (hswap e)
  | flashLoan => exact absurd rfl hflash
  | _ => exact h

theorem netChange_swap {b : Block ℚ} {m : Market ℚ} {l : Ledger ℚ} {e : Exchange} {o : SwapOrder ℚ}
    (ho : b.swapOrder e m l = .ok o) : NetChange b m l (.swap e) fun token =>
      (o.settled m l).worth (Ledger.only token) - l.worth (Ledger.only token) := by
  refine ⟨o, swapOrder_ok ho, fun token => ?_⟩
  dsimp only
  rw [SwapOrder.worth_settled, SwapOrder.output_exact, (swapOrder_ok ho).exchange]
  unfold Ledger.only
  split_ifs <;> ring

theorem netChange_flashLoan {b : Block ℚ} {m : Market ℚ} {l : Ledger ℚ} {s : Stake ℚ} {fee : ℚ}
    (ho : b.flashLoanOrder m l = .ok (s, fee)) : NetChange b m l .flashLoan fun token =>
      (s.flashed m fee l).worth (Ledger.only token) - l.worth (Ledger.only token) := by
  obtain ⟨hasset, rfl, -⟩ := flashLoanOrder_ok ho
  refine ⟨s.asset, s.amount, (assetAmount_ok hasset).1, (assetAmount_ok hasset).2, fun token => ?_⟩
  dsimp only
  rw [Stake.worth_flashed]
  unfold Ledger.only Costs.flashLoanRate
  split_ifs <;> ring

/-- A block that fires creates and destroys nothing: holdings of a token change by the two sides of
a swap and by the fee of a flash loan, and by nothing else. Every other block keeps the equity. -/
theorem fired_conserves {b : Block ℚ} {m : Market ℚ} {l l' : Ledger ℚ} {o : Outcome ℚ} (hl : l.Reachable)
    (h : b.execute m l = (.ok o, l')) (hf : o.fired = true) :
    ∃ kind, b.kind? = some kind ∧ NetChange b m l kind (fun token => l'.net token - l.net token) ∧
      ((∀ e, kind ≠ .swap e) → kind ≠ .flashLoan → l'.equity m.prices = l.equity m.prices) := by
  have hwf' : l'.WF := by
    have hreach := execute_reachable (b := b) (m := m) hl
    rw [h] at hreach
    exact hreach.wf
  obtain ⟨kind, hk, heff⟩ := execute_fired hl.wf h hf
  refine ⟨kind, hk, ?_, fun hswap hflash => ?_⟩
  · simp only [Ledger.net_eq_worth hl.wf, Ledger.net_eq_worth hwf']
    -- only a swap and a flash loan have a change of their own
    by_cases hswap : ∃ e, kind = .swap e
    · obtain ⟨e, rfl⟩ := hswap
      obtain ⟨order, ho, rfl⟩ := heff.swap_inv
      exact netChange_swap ho
    by_cases hflash : kind = .flashLoan
    · subst hflash
      obtain ⟨s, fee, ho, rfl⟩ := heff.flashLoan_inv
      exact netChange_flashLoan ho
    have hkeep := heff.worth_eq hl.wf (fun e he => hswap ⟨e, he⟩) hflash
    exact netChange_zero b m l (fun e he => hswap ⟨e, he⟩) hflash fun token => sub_eq_zero.2 (hkeep _)
  · rw [Ledger.equity_eq_worth, Ledger.equity_eq_worth, heff.worth_eq hl.wf hswap hflash]

end Block

end

/-! ## A supply -/

namespace Block

local instance openPartsOfSupplies : ExactArithmetic := default

/-- A supply of four hundred at a price of one. -/
def fourHundredSupplied : Block ℚ :=
  { id := "s", kind := "aave_supply", category := .protocol, label := "",
    params := [(.text "asset", .text "USDC"), (.text "amount", .num (.real 400))] }

/-- Supplying four hundred out of a thousand fires and moves them within the account. -/
theorem supply_conserves : ∃ (l l' : Ledger ℚ) (o : Outcome ℚ), l.Reachable ∧
    fourHundredSupplied.execute marketAtPar l = (.ok o, l') ∧ o.fired = true ∧ l'.balance "USDC" = 600 ∧
    (∀ token, l'.net token = l.net token) ∧ l'.equity marketAtPar.prices = l.equity marketAtPar.prices := by
  have hran : (fourHundredSupplied.execute marketAtPar thousand).1.toOption.map (·.fired) = some true := by
    decide +kernel
  have hleft : (fourHundredSupplied.execute marketAtPar thousand).2.balance "USDC" = 600 := by
    decide +kernel
  obtain ⟨o, ho, hf⟩ := execute_answered hran
  obtain ⟨kind, hk, hnet, heq⟩ := fired_conserves thousand_reachable ho hf
  obtain rfl : BlockKind.supply .aave = kind := Option.some.inj hk
  exact ⟨_, _, o, thousand_reachable, ho, hf, hleft, fun token => sub_eq_zero.1 (hnet token), heq (by simp) (by simp)⟩

end Block

end StrategyLab
