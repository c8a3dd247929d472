/-
The catalogue of block kinds and the categories they belong to.
-/

namespace StrategyLab

/-- What a block does in a strategy. -/
inductive Category where
  /-- Decides whether to go on. -/
  | entry
  /-- Acts on a protocol. -/
  | protocol
  /-- Closes positions. -/
  | exit
  /-- Reports on risk. -/
  | risk
  deriving Repr, DecidableEq, Inhabited

namespace Category

/-- The written name. -/
def name : Category → String
  | entry => "ENTRY"
  | protocol => "PROTOCOL"
  | exit => "EXIT"
  | risk => "RISK"

/-- The category with a name. -/
def ofName? (s : String) : Option Category := [entry, protocol, exit, risk].find? (·.name == s)

/-- A block of this category needs the one before it to have fired. -/
def isConditional : Category → Bool
  | protocol | exit => true
  | _ => false

end Category

/-- Where a swap is made. -/
inductive Exchange where
  | uniswap
  | curve
  | balancer
  | oneinch
  deriving Repr, DecidableEq, Inhabited

/-- Where supplies and loans are made. -/
inductive Lender where
  | aave
  | compound
  deriving Repr, DecidableEq, Inhabited

/-- The kinds of blocks. -/
inductive BlockKind where
  | priceTrigger
  | timeTrigger
  | volumeTrigger
  | indicatorTrigger
  | swap (exchange : Exchange)
  | supply (lender : Lender)
  | borrow (lender : Lender)
  | repay
  | withdraw
  | liquidity
  | flashLoan
  | staking
  | stopLoss
  | takeProfit
  | timeExit
  | conditionalExit
  | positionSizing
  | riskLimits
  | rebalancing
  deriving Repr, DecidableEq, Inhabited

namespace BlockKind

/-- All kinds. -/
def all : List BlockKind :=
  [priceTrigger, timeTrigger, volumeTrigger, indicatorTrigger, swap .uniswap, swap .curve,
   swap .balancer, swap .oneinch, supply .aave, borrow .aave, repay, withdraw, supply .compound,
   borrow .compound, liquidity, flashLoan, staking, stopLoss, takeProfit, timeExit,
   conditionalExit, positionSizing, riskLimits, rebalancing]

/-- The written name. -/
def name : BlockKind → String
  | priceTrigger => "price_trigger"
  | timeTrigger => "time_trigger"
  | volumeTrigger => "volume_trigger"
  | indicatorTrigger => "technical_indicator_trigger"
  | swap .uniswap => "uniswap_swap"
  | swap .curve => "curve_swap"
  | swap .balancer => "balancer_swap"
  | swap .oneinch => "oneinch_swap"
  | supply .aave => "aave_supply"
  | supply .compound => "compound_supply"
  | borrow .aave => "aave_borrow"
  | borrow .compound => "compound_borrow"
  | repay => "aave_repay"
  | withdraw => "aave_withdraw"
  | liquidity => "uniswap_v3_liquidity"
  | flashLoan => "flash_loan"
  | staking => "staking"
  | stopLoss => "stop_loss"
  | takeProfit => "take_profit"
  | timeExit => "time_exit"
  | conditionalExit => "conditional_exit"
  | positionSizing => "position_sizing"
  | riskLimits => "risk_limits"
  | rebalancing => "rebalancing"

/-- The kind with a name. -/
def ofName? (s : String) : Option BlockKind := all.find? (·.name == s)

/-- The category of a kind. -/
def category : BlockKind → Category
  | priceTrigger | timeTrigger | volumeTrigger | indicatorTrigger => .entry
  | swap _ | supply _ | borrow _ | repay | withdraw | liquidity | flashLoan | staking => .protocol
  | stopLoss | takeProfit | timeExit | conditionalExit => .exit
  | positionSizing | riskLimits | rebalancing => .risk

/-- Kinds that put an amount to use, which has to be positive. -/
def needsAmount : BlockKind → Bool
  | swap _ | supply _ | staking => true
  | _ => false

/-- Kinds that compare with a target. -/
def compares : BlockKind → Bool
  | priceTrigger | indicatorTrigger => true
  | _ => false

end BlockKind

end StrategyLab
