/-
Simulated costs. Gas is a fixed amount of the moved token per action, and a protocol takes a fixed
share of a swap's input.
-/
import StrategyLab.Ledger.Basic

namespace StrategyLab.Costs

variable {α : Type} [Scalar α]

/-- Units of the moved token that an action burns as gas. -/
def gasUnits : TradeKind → α
  | .swap => 0.001
  | .supply => 0.0015
  | .borrow => 0.002
  | .repay => 0.0015
  | .withdraw => 0.001
  | .liquidity => 0.003
  | .exit => 0.0005
  | .flashLoan => 0.002
  | .staking => 0.0015
  | .other _ => 0.0

/-- The gas of an action at a price of the moved token. -/
def gas (action : TradeKind) (price : α) : α := gasUnits action * price

/-- The share of a swap's input that a protocol takes. -/
def feeRate (protocol : String) : α :=
  if protocol = "uniswap" then 0.003
  else if protocol = "curve" then 0.0004
  else if protocol = "balancer" then 0.002
  else if protocol = "oneinch" then 0.001
  else 0.0

/-- The fee on an input amount. -/
def fee (amount : α) (protocol : String) : α := amount * feeRate protocol

/-- The fee of a flash loan, as a share of the loan. -/
def flashLoanRate : α := 0.0009

/-- An output reduced by the fee and then by slippage, and how much the slippage took. -/
def afterFeeAndSlippage (gross rate slippagePercent : α) : α × α :=
  let afterFee := gross * (1.0 - rate)
  let slipped := afterFee * (slippagePercent / 100.0)
  (afterFee - slipped, slipped)

end StrategyLab.Costs
