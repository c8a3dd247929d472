/-
The operations of an account, and its value. An operation answers with the account after it, or with
the reason of the refusal; after a refusal the account is the one before. Balances and asset
positions count for the value of an account, debts against it, and a token without a price counts as
nothing.
-/
import StrategyLab.Ledger.Basic

namespace StrategyLab.Ledger

variable {α : Type} [Scalar α]

/-- The scalar of an amount. -/
def scalarOf (amount : Num α) : Except (LedgerFault α) α :=
  match amount.value? with
  | some x => .ok x
  | none => .error .amountOutOfRange

/-! ## Balances -/

/-- The balance of a token, zero for one that never came up. -/
def balance (l : Ledger α) (token : String) : α := (l.balances.lookup token).getD 0.0

/-- Balances with one set, in place if the token is there, else at the end. -/
def putBalance (token : String) (x : α) : List (String × α) → List (String × α)
  | [] => [(token, x)]
  | (t, y) :: rest => if t = token then (t, x) :: rest else (t, y) :: putBalance token x rest

/-- The account with one balance set. -/
def withBalance (l : Ledger α) (token : String) (x : α) : Ledger α :=
  { l with balances := putBalance token x l.balances }

/-- An account with nothing but a capital in its base currency. -/
def start (capital : Num α) (baseCurrency : String) : Except (LedgerFault α) (Ledger α) :=
  if capital.isAtMost (.whole 0) then .error .nonPositiveCapital
  else do
    let x ← scalarOf capital
    pure { baseCurrency, initialCapital := x, balances := [(baseCurrency, x)], positions := [],
           trades := [], nextTrade := 1, nextPosition := 1 }

/-- Adds an amount to a balance. -/
def credit (l : Ledger α) (token : String) (amount : Num α) : Except (LedgerFault α) (Ledger α) :=
  if amount.isLess (.whole 0) then .error (.negativeCredit token amount)
  else do
    let x ← scalarOf amount
    pure (l.withBalance token (l.balance token + x))

/-- Takes an amount from a balance that covers it. -/
def debit (l : Ledger α) (token : String) (amount : Num α) : Except (LedgerFault α) (Ledger α) :=
  if amount.isLess (.whole 0) then .error (.negativeDebit token amount)
  else
    let available := l.balance token
    if Num.isLess (.real available) amount then
      .error (.insufficientBalance token available amount)
    else do
      let x ← scalarOf amount
      pure (l.withBalance token (available - x))

/-! ## Positions -/

/-- What a new position is given. -/
structure NewPosition (α : Type) where
  kind : PositionKind
  asset : String
  amount : α
  entryPrice : α
  opened : Instant
  protocol : String
  apy : α

/-- The position that an account would open next. -/
def nextOpened (l : Ledger α) (p : NewPosition α) : Position α :=
  { number := l.nextPosition, kind := p.kind, asset := p.asset, amount := p.amount,
    entryPrice := p.entryPrice, opened := p.opened, protocol := p.protocol, apy := p.apy }

/-- Opens a position. -/
def openPosition (l : Ledger α) (p : NewPosition α) : Ledger α :=
  { l with positions := l.positions ++ [l.nextOpened p], nextPosition := l.nextPosition + 1 }

/-- The open position with a name. -/
def position? (l : Ledger α) (id : String) : Option (Position α) :=
  l.positions.find? (·.id == id)

/-- Closes a position; answers what was open. -/
def closePosition (l : Ledger α) (id : String) :
    Except (LedgerFault α) (Position α × Ledger α) :=
  match l.position? id with
  | none => .error (.unknownPosition id)
  | some p => .ok (p, { l with positions := l.positions.filter (·.id != id) })

/-- The positions with one changed, or closed once nothing of it is left. -/
def replacePosition (p : Position α) (positions : List (Position α)) : List (Position α) :=
  if p.amount ≤ 0.0 then positions.filter (·.number != p.number)
  else positions.map fun q => if q.number = p.number then p else q

/-- Takes an amount from a position, closing it once nothing is left; answers the position after
the reduction. -/
def reducePosition (l : Ledger α) (id : String) (amount : Num α) :
    Except (LedgerFault α) (Position α × Ledger α) :=
  match l.position? id with
  | none => .error (.unknownPosition id)
  | some p =>
    if Num.isLess (.real p.amount) amount then
      .error (.reductionTooLarge p.kind p.asset amount p.amount)
    else do
      let x ← scalarOf amount
      let reduced := { p with amount := p.amount - x }
      pure (reduced, { l with positions := replacePosition reduced l.positions })

/-- The open positions that agree with every given attribute. -/
def positionsWith (l : Ledger α) (kind : Option String) (protocol asset : Option String) :
    List (Position α) :=
  l.positions.filter fun p =>
    (kind.all (p.kind.name == ·)) && (protocol.all (p.protocol == ·)) && (asset.all (p.asset == ·))

/-! ## Interest -/

/-- The interest of a position over a number of days; none without a positive rate. -/
def interest (p : Position α) (days : α) : Option α :=
  if p.apy ≤ 0.0 then none else some (p.amount * (p.apy / 365.0) * days)

/-- The positions grown by their interest, and the interest added to `total`. -/
def accrueAll (days : α) : List (Position α) → (total : α) → List (Position α) × α
  | [], total => ([], total)
  | p :: rest, total =>
    match interest p days with
    | none =>
      let (grown, sum) := accrueAll days rest total
      (p :: grown, sum)
    | some x =>
      let (grown, sum) := accrueAll days rest (total + x)
      ({ p with amount := p.amount + x } :: grown, sum)

/-- Grows every position with a positive rate by its simple interest over a number of days;
answers the sum of all interest. -/
def accrueInterest (l : Ledger α) (days : Num α) : α × Ledger α :=
  if days.isAtMost (.whole 0) then (0.0, l)
  else
    let (grown, total) := accrueAll days.value l.positions 0.0
    (total, { l with positions := grown })

/-! ## Trades -/

/-- What a new trade is given. -/
structure NewTrade (α : Type) where
  timestamp : Instant
  kind : TradeKind
  inputToken : String
  inputAmount : α
  price : α
  fees : α
  gas : α
  outputToken : Option String
  outputAmount : Option α
  slippage : Option (Num α)

/-- The trade that an account would record next. -/
def nextRecorded (l : Ledger α) (t : NewTrade α) : Trade α :=
  { number := l.nextTrade, timestamp := t.timestamp, kind := t.kind, inputToken := t.inputToken,
    inputAmount := t.inputAmount, price := t.price, fees := t.fees, gas := t.gas,
    outputToken := t.outputToken, outputAmount := t.outputAmount, slippage := t.slippage }

/-- Records a trade at the end of the log. -/
def recordTrade (l : Ledger α) (t : NewTrade α) : Ledger α :=
  { l with trades := l.trades ++ [l.nextRecorded t], nextTrade := l.nextTrade + 1 }

/-- The sum of a cost over all trades; the sum of none is a whole zero. -/
def totalOf (cost : Trade α → α) : List (Trade α) → Num α
  | [] => .whole 0
  | trades => .real (trades.foldl (fun sum t => sum + cost t) 0.0)

/-- The gas spent over all trades. -/
def totalGas (l : Ledger α) : Num α := totalOf (·.gas) l.trades

/-- The fees spent over all trades. -/
def totalFees (l : Ledger α) : Num α := totalOf (·.fees) l.trades

end StrategyLab.Ledger

namespace StrategyLab

/-- The prices of some tokens at one instant. -/
abbrev Quotes (α : Type) := List (String × Num α)

namespace Quotes

variable {α : Type} [Scalar α]

/-- The price of a token, zero if there is none. -/
def priceOr0 (quotes : Quotes α) (token : String) : α :=
  match quotes.lookup token with
  | some p => p.value
  | none => 0.0

end Quotes

namespace Ledger

variable {α : Type} [Scalar α]

/-- What a position adds to the value of the account. -/
def signedValue (quotes : Quotes α) (p : Position α) : α :=
  let value := p.amount * quotes.priceOr0 p.asset
  if p.isLiability then -value else value

/-- The value of the account at given prices. -/
def equity (l : Ledger α) (quotes : Quotes α) : α :=
  let cash := l.balances.foldl (fun sum (token, x) => sum + x * quotes.priceOr0 token) 0.0
  l.positions.foldl (fun sum p => sum + signedValue quotes p) cash

end Ledger

end StrategyLab
