/-
Swaps: an amount of one token is exchanged for another at the ratio of their prices, reduced by
the exchange's fee and then by slippage.
-/
import StrategyLab.Block.Outcome

namespace StrategyLab

namespace Exchange

variable {α : Type} [Scalar α]

/-- The written name. -/
def name : Exchange → String
  | uniswap => "uniswap"
  | curve => "curve"
  | balancer => "balancer"
  | oneinch => "oneinch"

/-- The share of the input taken as fee. -/
def feeRate (e : Exchange) : α := Costs.feeRate e.name

/-- The slippage in percent unless a block says otherwise. -/
def defaultSlippage : Exchange → α
  | curve => 0.1
  | _ => 0.5

/-- The factor by which routing improves the rate. -/
def rateBonus : Exchange → α
  | oneinch => 1.001
  | _ => 1.0

end Exchange

/-- A swap that can be made. -/
structure SwapOrder (α : Type) where
  exchange : Exchange
  inputToken : String
  outputToken : String
  amount : α
  slippage : α
  priceIn : α
  priceOut : α
  deriving Repr, Inhabited

namespace SwapOrder

variable {α : Type} [Scalar α]

/-- The output before fee and slippage. -/
def naiveOutput (o : SwapOrder α) : α := o.amount * (o.priceIn / o.priceOut) * o.exchange.rateBonus

/-- The output, and how much the slippage took. -/
def output (o : SwapOrder α) : α × α :=
  Costs.afterFeeAndSlippage o.naiveOutput o.exchange.feeRate o.slippage

/-- The fee in units of the input. -/
def fee (o : SwapOrder α) : α := o.amount * o.exchange.feeRate

/-- The gas. -/
def gas (o : SwapOrder α) : α := Costs.gas .swap o.priceIn

/-- Moves the amounts and records the trade. -/
def perform (m : Market α) (o : SwapOrder α) : Action α (Outcome α) := do
  let (received, slipped) := o.output
  Action.debit o.inputToken o.amount
  Action.credit o.outputToken received
  Action.record
    { timestamp := m.timestamp, kind := .swap, inputToken := o.inputToken,
      inputAmount := o.amount, price := o.priceOut, fees := o.fee * o.priceIn, gas := o.gas,
      outputToken := some o.outputToken, outputAmount := some received,
      slippage := some (.real o.slippage) }
  pure (.didFire
    ("Swapped " ++ Scalar.text o.amount ++ " " ++ o.inputToken ++ " for " ++
      Scalar.fixed 4 received ++ " " ++ o.outputToken ++ " on " ++ o.exchange.name)
    [("input_amount", .real o.amount), ("output_amount", .real received),
     ("naive_output", .real o.naiveOutput), ("fee_amount", .real o.fee),
     ("slippage_amount", .real slipped), ("gas_cost_usd", .real o.gas)])

end SwapOrder

namespace Block

variable {α : Type} [Scalar α]

/-- The swap that a block asks for. The balance is checked before the prices. -/
def swapOrder (e : Exchange) (b : Block α) (m : Market α) (l : Ledger α) :
    Except (Fault α) (SwapOrder α) := do
  let inputToken ← b.text "input_token"
  let outputToken ← b.text "output_token"
  let amount ← b.positive "amount" none
  let slippage ← b.number "slippage" (some e.defaultSlippage)
  if slippage < 0.0 then throw (.rejected (.negativeSlippage b.displayName))
  l.requireBalance inputToken amount
  let priceIn ← m.price inputToken
  let priceOut ← m.price outputToken
  pure { exchange := e, inputToken, outputToken, amount, slippage, priceIn := priceIn.value,
         priceOut := priceOut.value }

/-- Makes a swap. -/
def swap (e : Exchange) (b : Block α) (m : Market α) : Action α (Outcome α) := do
  let order ← b.swapOrder e m (← get)
  order.perform m

end Block

end StrategyLab
