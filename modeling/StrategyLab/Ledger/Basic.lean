/-
The account of one simulation run: balances per token, open positions and the log of trades, and
the written forms of positions and trades. A debit never clamps: a request above the balance is
refused and changes nothing.
-/
import StrategyLab.Value.Basic

namespace StrategyLab

/-! ## What an account holds -/

/-- The kinds of open positions. -/
inductive PositionKind where
  | supply
  | borrow
  | liquidity
  | staking
  deriving Repr, DecidableEq, Inhabited

namespace PositionKind

/-- The written name of a kind. -/
def name : PositionKind → String
  | supply => "supply"
  | borrow => "borrow"
  | liquidity => "liquidity"
  | staking => "staking"

/-- All kinds. -/
def all : List PositionKind := [supply, borrow, liquidity, staking]

/-- The kind with a name. -/
def ofName? (s : String) : Option PositionKind := all.find? (·.name == s)

end PositionKind

/-- An open position in a protocol. -/
structure Position (α : Type) where
  /-- Counts the positions of a run from one. -/
  number : Nat
  kind : PositionKind
  /-- The token held or owed. -/
  asset : String
  amount : α
  entryPrice : α
  opened : Instant
  protocol : String
  /-- The yearly rate as a fraction. -/
  apy : α
  deriving Repr, Inhabited

namespace Position

variable {α : Type}

/-- The name of the position with a number. -/
def idOf (number : Nat) : String := "position-" ++ Decimal.natText number

/-- The name of a position. -/
def id (p : Position α) : String := idOf p.number

/-- A debt, which counts against the account. -/
def isLiability (p : Position α) : Bool := p.kind = .borrow

end Position

/-- The kinds of trades. -/
inductive TradeKind where
  | swap
  | supply
  | borrow
  | repay
  | withdraw
  | liquidity
  | flashLoan
  | staking
  | exit
  /-- A trade of a kind that the simulation never records. -/
  | other (name : String)
  deriving Repr, DecidableEq, Inhabited

namespace TradeKind

/-- The written name of a kind. -/
def name : TradeKind → String
  | swap => "swap"
  | supply => "supply"
  | borrow => "borrow"
  | repay => "repay"
  | withdraw => "withdraw"
  | liquidity => "liquidity"
  | flashLoan => "flash_loan"
  | staking => "staking"
  | exit => "exit"
  | other name => name

/-- The kinds that the simulation records. -/
def recorded : List TradeKind :=
  [swap, supply, borrow, repay, withdraw, liquidity, flashLoan, staking, exit]

/-- The kind with a name. -/
def ofName (s : String) : TradeKind := (recorded.find? (·.name == s)).getD (other s)

end TradeKind

/-- One entry of the trade log. -/
structure Trade (α : Type) where
  /-- Counts the trades of a run from one. -/
  number : Nat
  timestamp : Instant
  kind : TradeKind
  inputToken : String
  inputAmount : α
  price : α
  fees : α
  gas : α
  outputToken : Option String
  outputAmount : Option α
  /-- Slippage in percent, as written. -/
  slippage : Option (Num α)
  deriving Repr, Inhabited

namespace Trade

variable {α : Type}

/-- The name of a trade. -/
def id (t : Trade α) : String := "trade-" ++ Decimal.natText t.number

end Trade

/-- The state of an account. -/
structure Ledger (α : Type) where
  baseCurrency : String
  initialCapital : α
  /-- Balances in the order in which the tokens first came up. -/
  balances : List (String × α)
  /-- Open positions in the order of their opening. -/
  positions : List (Position α)
  /-- All trades, the first one first. -/
  trades : List (Trade α)
  nextTrade : Nat
  nextPosition : Nat
  deriving Repr, Inhabited

/-- Why a ledger refuses an operation. -/
inductive LedgerFault (α : Type) where
  /-- A debit above the balance. -/
  | insufficientBalance (token : String) (available : α) (requested : Num α)
  /-- No open position has this name. -/
  | unknownPosition (id : String)
  /-- A reduction above what is open. -/
  | reductionTooLarge (kind : PositionKind) (asset : String) (requested : Num α) (amount : α)
  /-- A borrow without anything supplied to the protocol. -/
  | noCollateral (protocol : String)
  /-- A repayment without a debt. -/
  | noDebt (asset protocol : String)
  /-- A withdrawal without anything supplied. -/
  | nothingSupplied (protocol asset : String)
  /-- A credit of a negative amount. -/
  | negativeCredit (token : String) (amount : Num α)
  /-- A debit of a negative amount. -/
  | negativeDebit (token : String) (amount : Num α)
  /-- No position has this kind. -/
  | unknownPositionKind (name : String)
  /-- A ledger starts with a positive capital. -/
  | nonPositiveCapital
  /-- A whole amount is out of range of the scalars. -/
  | amountOutOfRange
  deriving Repr, Inhabited

namespace LedgerFault

variable {α : Type} [Scalar α]

/-- The explanation of a refusal. -/
def message : LedgerFault α → String
  | insufficientBalance token available requested =>
    "Insufficient balance: " ++ token ++ ". Have " ++ Scalar.text available ++ ", need " ++
      requested.text
  | unknownPosition id => "Unknown position: " ++ id
  | reductionTooLarge kind asset requested amount =>
    "Cannot reduce " ++ kind.name ++ " position in " ++ asset ++ " by " ++ requested.text ++
      "; only " ++ Scalar.text amount ++ " open"
  | noCollateral protocol => "Cannot borrow: no collateral supplied to " ++ protocol
  | noDebt asset protocol => "No debt to repay for " ++ asset ++ " on " ++ protocol
  | nothingSupplied protocol asset =>
    "Cannot withdraw: nothing supplied to " ++ protocol ++ " for " ++ asset
  | negativeCredit token amount =>
    "Cannot credit a negative amount of " ++ token ++ ": " ++ amount.text
  | negativeDebit token amount =>
    "Cannot debit a negative amount of " ++ token ++ ": " ++ amount.text
  | unknownPositionKind name => "Unknown position kind: " ++ name
  | nonPositiveCapital => "initial_capital must be positive"
  | amountOutOfRange => "int too large to convert to float"

/-- Refusals of a block's request, as opposed to misuse of the ledger. -/
def isRefusal : LedgerFault α → Bool
  | insufficientBalance .. | unknownPosition _ | reductionTooLarge .. | noCollateral _
  | noDebt .. | nothingSupplied .. => true
  | _ => false

end LedgerFault

/-! ## Written forms -/

variable {α : Type}

/-- The written form of a position. -/
def Position.toValue (p : Position α) : Value α :=
  .record [("id", .text p.id), ("kind", .text p.kind.name), ("asset", .text p.asset),
    ("amount", .real p.amount), ("entry_price", .real p.entryPrice),
    ("entry_timestamp", .text p.opened.text), ("protocol", .text p.protocol),
    ("apy", .real p.apy)]

/-- The written form of a trade; what it lacks is written as nothing. -/
def Trade.toValue (t : Trade α) : Value α :=
  .record [("id", .text t.id), ("timestamp", .text t.timestamp.text), ("kind", .text t.kind.name),
    ("input_token", .text t.inputToken), ("input_amount", .real t.inputAmount),
    ("price", .real t.price), ("fees_usd", .real t.fees), ("gas_cost_usd", .real t.gas),
    ("output_token", .ofOption (t.outputToken.map .text)),
    ("output_amount", .ofOption (t.outputAmount.map .real)),
    ("slippage_pct", .ofOption (t.slippage.map .num))]

end StrategyLab
