/-
Supplying, borrowing, repaying, withdrawing, staking, providing liquidity and flash loans: value
moves between a balance and a position, and one trade is recorded.
-/
import StrategyLab.Block.Outcome

namespace StrategyLab

/-- The written name of a lender. -/
def Lender.name : Lender → String
  | .aave => "aave"
  | .compound => "compound"

/-- An amount of one token at its price. -/
structure Stake (α : Type) where
  asset : String
  amount : α
  price : α
  deriving Repr, Inhabited

namespace Stake

variable {α : Type} [Scalar α]

/-- The position that a stake opens. -/
def position (s : Stake α) (m : Market α) (kind : PositionKind) (protocol : String) (apy : α) :
    Ledger.NewPosition α :=
  { kind, asset := s.asset, amount := s.amount, entryPrice := s.price, opened := m.timestamp,
    protocol, apy }

/-- A stake as messages show it. -/
def shown (s : Stake α) : String := Scalar.text s.amount ++ " " ++ s.asset

end Stake

namespace Block

variable {α : Type} [Scalar α]

/-- A token and a positive amount of it. -/
def assetAmount (b : Block α) : Except (Fault α) (String × α) := do
  let asset ← b.text "asset"
  let amount ← b.positive "amount" none
  pure (asset, amount)

/-! ## Balance into position -/

/-- The stake that a block takes out of a balance, and its yearly rate as a fraction. -/
def depositOrder (b : Block α) (m : Market α) (l : Ledger α) (defaultRate : α) :
    Except (Fault α) (Stake α × α) := do
  let (asset, amount) ← b.assetAmount
  let rate ← b.number "apy" (some defaultRate)
  l.requireBalance asset amount
  let price ← m.price asset
  pure ({ asset, amount, price := price.value }, rate / 100.0)

/-- Moves a stake from its balance into a new position; answers the position's name. -/
def deposit (m : Market α) (s : Stake α) (kind : PositionKind) (trade : TradeKind)
    (protocol : String) (apy : α) : Action α String := do
  Action.debit s.asset s.amount
  let id ← Action.openPosition (s.position m kind protocol apy)
  Action.recordSingle m trade s.asset s.amount s.price 0.0
  pure id

/-- Supplies an amount to a lender. -/
def supply (lender : Lender) (b : Block α) (m : Market α) : Action α (Outcome α) := do
  let (stake, apy) ← b.depositOrder m (← get) 3.0
  let id ← deposit m stake .supply .supply lender.name apy
  pure (.didFire ("Supplied " ++ stake.shown ++ " to " ++ lender.name)
    [("position_id", .text id), ("gas_cost_usd", .real (Costs.gas .supply stake.price))])

/-- Stakes an amount. -/
def staking (b : Block α) (m : Market α) : Action α (Outcome α) := do
  let (stake, apy) ← b.depositOrder m (← get) 4.0
  let protocol := match (b.param? "protocol").filter Value.isPresent with
    | some v => v.shown
    | none => "staking"
  let id ← deposit m stake .staking .staking protocol apy
  let form := ((b.param? "staking_type").getD (.text "liquid")).shown
  pure (.didFire ("Staked " ++ stake.shown ++ " (" ++ form ++ ")")
    [("position_id", .text id), ("gas_cost_usd", .real (Costs.gas .staking stake.price))])

/-! ## Loans -/

/-- The loan that a block takes, and its yearly rate; the lender must have been supplied with
something. -/
def borrowOrder (lender : Lender) (b : Block α) (m : Market α) (l : Ledger α) :
    Except (Fault α) (Stake α × α) := do
  let (asset, amount) ← b.assetAmount
  let rate ← b.number "apy" (some 0.0)
  if (l.positionsWith (some "supply") (some lender.name) none).isEmpty then
    throw (.ledger (.noCollateral lender.name))
  let price ← m.price asset
  pure ({ asset, amount, price := price.value }, rate / 100.0)

/-- Borrows an amount from a lender. -/
def borrow (lender : Lender) (b : Block α) (m : Market α) : Action α (Outcome α) := do
  let (loan, apy) ← b.borrowOrder lender m (← get)
  Action.credit loan.asset loan.amount
  let id ← Action.openPosition (loan.position m .borrow lender.name apy)
  Action.recordSingle m .borrow loan.asset loan.amount loan.price 0.0
  pure (.didFire ("Borrowed " ++ loan.shown ++ " from " ++ lender.name)
    [("position_id", .text id),
     ("interest_rate_mode", Value.ofOption (b.param? "interest_rate_mode")),
     ("gas_cost_usd", .real (Costs.gas .borrow loan.price))])

/-- The debt that a block pays back, and with how much. -/
def repayOrder (lender : Lender) (b : Block α) (m : Market α) (l : Ledger α) :
    Except (Fault α) (Position α × Stake α) := do
  let (asset, amount) ← b.assetAmount
  l.requireBalance asset amount
  match l.positionsWith (some "borrow") (some lender.name) (some asset) with
  | [] => throw (.ledger (.noDebt asset lender.name))
  | debt :: _ =>
    let price ← m.price asset
    pure (debt, { asset, amount, price := price.value })

/-- Pays back part of the oldest debt in a token. -/
def repay (lender : Lender) (b : Block α) (m : Market α) : Action α (Outcome α) := do
  let (debt, stake) ← b.repayOrder lender m (← get)
  let left ← Action.reducePosition debt.id stake.amount
  Action.debit stake.asset stake.amount
  Action.recordSingle m .repay stake.asset stake.amount stake.price 0.0
  pure (.didFire ("Repaid " ++ stake.shown ++ " to " ++ lender.name)
    [("remaining_debt", .real left), ("gas_cost_usd", .real (Costs.gas .repay stake.price))])

/-- The supply that a block takes from, and how much. -/
def withdrawOrder (lender : Lender) (b : Block α) (m : Market α) (l : Ledger α) :
    Except (Fault α) (Position α × Stake α) := do
  let (asset, amount) ← b.assetAmount
  match l.positionsWith (some "supply") (some lender.name) (some asset) with
  | [] => throw (.ledger (.nothingSupplied lender.name asset))
  | supplied :: _ =>
    let price ← m.price asset
    pure (supplied, { asset, amount, price := price.value })

/-- Takes back part of the oldest supply of a token. -/
def withdraw (lender : Lender) (b : Block α) (m : Market α) : Action α (Outcome α) := do
  let (supplied, stake) ← b.withdrawOrder lender m (← get)
  let left ← Action.reducePosition supplied.id stake.amount
  Action.credit stake.asset stake.amount
  Action.recordSingle m .withdraw stake.asset stake.amount stake.price 0.0
  pure (.didFire ("Withdrew " ++ stake.shown ++ " from " ++ lender.name)
    [("remaining_supply", .real left),
     ("gas_cost_usd", .real (Costs.gas .withdraw stake.price))])

/-! ## Liquidity -/

/-- The two legs that a block provides to a pool. -/
def liquidityOrder (b : Block α) (m : Market α) (l : Ledger α) :
    Except (Fault α) (Stake α × Stake α) := do
  let token0 ← b.text "token0"
  let token1 ← b.text "token1"
  let amount0 ← b.number "amount0" (some 0.0)
  let amount1 ← b.number "amount1" (some 0.0)
  if amount0 < 0.0 ∨ amount1 < 0.0 ∨ amount0 + amount1 ≤ 0.0 then
    throw (.rejected (.badLiquidity b.displayName))
  l.requireBalance token0 amount0
  l.requireBalance token1 amount1
  let price0 ← m.price token0
  let price1 ← m.price token1
  pure ({ asset := token0, amount := amount0, price := price0.value },
    { asset := token1, amount := amount1, price := price1.value })

/-- Moves one leg into a position of its own, which stays priced in its token. -/
def provideLeg (m : Market α) (pool : String) (leg : Stake α) : Action α Unit := do
  if leg.amount ≤ 0.0 then pure ()
  else
    Action.debit leg.asset leg.amount
    let _ ← Action.openPosition (leg.position m .liquidity pool 0.0)

/-- Provides liquidity to a pool of two tokens. -/
def liquidity (b : Block α) (m : Market α) : Action α (Outcome α) := do
  let (leg0, leg1) ← b.liquidityOrder m (← get)
  let pool := "uniswap:" ++ leg0.asset ++ "/" ++ leg1.asset
  provideLeg m pool leg0
  provideLeg m pool leg1
  let gas := Costs.gas .liquidity leg0.price
  Action.record
    { timestamp := m.timestamp, kind := .liquidity, inputToken := leg0.asset,
      inputAmount := leg0.amount, price := leg0.price, fees := 0.0, gas,
      outputToken := some leg1.asset, outputAmount := some leg1.amount, slippage := none }
  pure (.didFire ("Added liquidity: " ++ leg0.shown ++ " + " ++ leg1.shown)
    [("pool", .text pool), ("fee_tier", Value.ofOption (b.param? "fee_tier")),
     ("gas_cost_usd", .real gas)])

/-! ## Flash loans -/

/-- The loan that a block takes for an instant, and its fee, which the balance must cover. -/
def flashLoanOrder (b : Block α) (m : Market α) (l : Ledger α) :
    Except (Fault α) (Stake α × α) := do
  let (asset, amount) ← b.assetAmount
  let fee := amount * Costs.flashLoanRate
  l.requireBalance asset fee
  let price ← m.price asset
  pure ({ asset, amount, price := price.value }, fee)

/-- Takes a loan and pays it back at once, so that only the fee leaves the account. -/
def flashLoan (b : Block α) (m : Market α) : Action α (Outcome α) := do
  let (loan, fee) ← b.flashLoanOrder m (← get)
  Action.debit loan.asset fee
  Action.recordSingle m .flashLoan loan.asset loan.amount loan.price (fee * loan.price)
  pure (.didFire ("Flash loan executed: " ++ loan.shown ++ " (fee " ++ Scalar.fixed 6 fee ++ ")")
    [("fee", .real fee), ("gas_cost_usd", .real (Costs.gas .flashLoan loan.price))])

end Block

end StrategyLab
