/-
What each kind of block leaves when it fires, as an account computed from the one before
(`Effect`), over any scalars.
-/
import StrategyLab.Proofs.Block.Action
import StrategyLab.Proofs.Block.Order

namespace StrategyLab

variable {α : Type} [Scalar α]

/-! ## What is left -/

/-- The trade that a swap is recorded as. -/
def SwapOrder.trade (m : Market α) (o : SwapOrder α) : Ledger.NewTrade α :=
  { timestamp := m.timestamp, kind := .swap, inputToken := o.inputToken, inputAmount := o.amount,
    price := o.priceOut, fees := o.fee * o.priceIn, gas := o.gas, outputToken := some o.outputToken,
    outputAmount := some o.output.1, slippage := some (.real o.slippage) }

/-- The account after a swap. -/
def SwapOrder.settled (m : Market α) (o : SwapOrder α) (l : Ledger α) : Ledger α :=
  ((l.pay o.inputToken o.amount).gain o.outputToken o.output.1).recordTrade (o.trade m)

namespace Stake

/-- The account after a stake went from its balance into a new position. -/
def deposited (m : Market α) (s : Stake α) (kind : PositionKind) (trade : TradeKind) (protocol : String)
    (apy : α) (l : Ledger α) : Ledger α :=
  ((l.pay s.asset s.amount).openPosition (s.position m kind protocol apy)).recordTrade
    (Action.singleTrade m trade s.asset s.amount s.price 0.0)

/-- The account after a loan was taken. -/
def borrowed (m : Market α) (s : Stake α) (protocol : String) (apy : α) (l : Ledger α) : Ledger α :=
  ((l.gain s.asset s.amount).openPosition (s.position m .borrow protocol apy)).recordTrade
    (Action.singleTrade m .borrow s.asset s.amount s.price 0.0)

/-- The account after one leg of liquidity; an empty leg is left out. -/
def provided (m : Market α) (pool : String) (leg : Stake α) (l : Ledger α) : Ledger α :=
  if leg.amount ≤ 0.0 then l
  else (l.pay leg.asset leg.amount).openPosition (leg.position m .liquidity pool 0.0)

theorem trades_provided (m : Market α) (pool : String) (leg : Stake α) (l : Ledger α) :
    (leg.provided m pool l).trades = l.trades := by
  unfold provided; split_ifs <;> rfl

/-- The name of the pool of two legs. -/
def pool (leg0 leg1 : Stake α) : String := "uniswap:" ++ leg0.asset ++ "/" ++ leg1.asset

/-- The trade that two legs of liquidity are recorded as. -/
def poolTrade (m : Market α) (leg0 leg1 : Stake α) : Ledger.NewTrade α :=
  { timestamp := m.timestamp, kind := .liquidity, inputToken := leg0.asset, inputAmount := leg0.amount,
    price := leg0.price, fees := 0.0, gas := Costs.gas .liquidity leg0.price,
    outputToken := some leg1.asset, outputAmount := some leg1.amount, slippage := none }

/-- The account after both legs. -/
def pooled (m : Market α) (leg0 leg1 : Stake α) (l : Ledger α) : Ledger α :=
  (leg1.provided m (leg0.pool leg1) (leg0.provided m (leg0.pool leg1) l)).recordTrade (leg0.poolTrade m leg1)

/-- Two legs that are not empty are in one token, whose balance does not cover both. -/
def Overdraw (leg0 leg1 : Stake α) (l : Ledger α) : Prop :=
  leg0.asset = leg1.asset ∧ ¬ leg0.amount ≤ 0.0 ∧ ¬ leg1.amount ≤ 0.0 ∧
    l.balance leg0.asset - leg0.amount < leg1.amount

/-- The account after the fee of a loan for an instant. -/
def flashed (m : Market α) (s : Stake α) (fee : α) (l : Ledger α) : Ledger α :=
  (l.pay s.asset fee).recordTrade (Action.singleTrade m .flashLoan s.asset s.amount s.price (fee * s.price))

end Stake

namespace Ledger

/-- The account after a position was closed at a price. -/
def closedAt (m : Market α) (l : Ledger α) (closing : Position α × α) : Ledger α :=
  ({ l with positions := l.positions.filter (·.id != closing.1.id) }.gain closing.1.asset
    closing.1.amount).recordTrade
      (Action.singleTrade m .exit closing.1.asset closing.1.amount closing.2 0.0)

end Ledger

namespace Block

/-- What a block of a kind leaves when it fires. -/
inductive Effect (b : Block α) (m : Market α) (l : Ledger α) : BlockKind → Ledger α → Prop where
  | swap {e : Exchange} {o : SwapOrder α} :
      b.swapOrder e m l = .ok o → Effect b m l (.swap e) (o.settled m l)
  | supply {lender : Lender} {s : Stake α} {apy : α} : b.depositOrder m l 3.0 = .ok (s, apy) →
      Effect b m l (.supply lender) (s.deposited m .supply .supply lender.name apy l)
  | staking {s : Stake α} {apy : α} (protocol : String) : b.depositOrder m l 4.0 = .ok (s, apy) →
      Effect b m l .staking (s.deposited m .staking .staking protocol apy l)
  | borrow {lender : Lender} {s : Stake α} {apy : α} : b.borrowOrder lender m l = .ok (s, apy) →
      Effect b m l (.borrow lender) (s.borrowed m lender.name apy l)
  | repay {debt left : Position α} {s : Stake α} {l' : Ledger α} : b.repayOrder .aave m l = .ok (debt, s) →
      l.reducePosition debt.id (.real s.amount) = .ok (left, l') →
      Effect b m l .repay ((l'.pay s.asset s.amount).recordTrade
        (Action.singleTrade m .repay s.asset s.amount s.price 0.0))
  | withdraw {supplied left : Position α} {s : Stake α} {l' : Ledger α} :
      b.withdrawOrder .aave m l = .ok (supplied, s) →
      l.reducePosition supplied.id (.real s.amount) = .ok (left, l') →
      Effect b m l .withdraw ((l'.gain s.asset s.amount).recordTrade
        (Action.singleTrade m .withdraw s.asset s.amount s.price 0.0))
  | liquidity {leg0 leg1 : Stake α} : b.liquidityOrder m l = .ok (leg0, leg1) →
      Effect b m l .liquidity (leg0.pooled m leg1 l)
  | flashLoan {s : Stake α} {fee : α} : b.flashLoanOrder m l = .ok (s, fee) →
      Effect b m l .flashLoan (s.flashed m fee l)
  | exit {kind : BlockKind} {closings : List (Position α × α)} : kind.category = .exit →
      closings ≠ [] → (closings.map (·.1)).Sublist (b.assetPositions l) →
      Effect b m l kind (closings.foldl (Ledger.closedAt m) l)
  | report {kind : BlockKind} : kind.category = .entry ∨ kind.category = .risk → Effect b m l kind l

theorem Effect.swap_inv {b : Block α} {m : Market α} {l l' : Ledger α} {e : Exchange}
    (h : Effect b m l (.swap e) l') : ∃ o, b.swapOrder e m l = .ok o ∧ l' = o.settled m l := by
  cases h with
  | swap ho => exact ⟨_, ho, rfl⟩
  | exit hk => cases hk
  | report hk => rcases hk with hk | hk <;> cases hk

theorem Effect.flashLoan_inv {b : Block α} {m : Market α} {l l' : Ledger α}
    (h : Effect b m l .flashLoan l') : ∃ s fee, b.flashLoanOrder m l = .ok (s, fee) ∧ l' = s.flashed m fee l := by
  cases h with
  | flashLoan ho => exact ⟨_, _, ho, rfl⟩
  | exit hk => cases hk
  | report hk => rcases hk with hk | hk <;> cases hk

/-- A block of liquidity whose legs overdraw the balance that each of them was found to fit in. -/
def Overdraws (b : Block α) (m : Market α) (l : Ledger α) : Prop :=
  b.kind? = some .liquidity ∧
    ∃ leg0 leg1, b.liquidityOrder m l = .ok (leg0, leg1) ∧ leg0.Overdraw leg1 l

end Block

end StrategyLab
