/-
Commands to an account in their written form: the name of an operation and what it is given. A
command that is refused, or cannot be read, leaves the account as it was.
-/
import StrategyLab.Ledger.Account
import StrategyLab.Time.Reading
import StrategyLab.Value.Fields

namespace StrategyLab

variable {α : Type} [Scalar α]

namespace Ledger

/-! ## Entries -/

/-- The time of entries that are written without one. -/
def defaultTime : Value α := .text "2024-01-01"

/-- Reads a trade; what is left out is that of a swap of nothing. -/
def NewTrade.ofFields (fields : Object α) : Except (Fault α) (NewTrade α) := do
  let timestamp ← Instant.ofValue (fields.valueD "timestamp" defaultTime)
  let real (name : String) : Except (Fault α) α := do
    let x ← (fields.valueD name (.real 0.0)).toReal
    pure x
  let inputAmount ← real "input_amount"
  let price ← real "price"
  let fees ← real "fees_usd"
  let gas ← real "gas_cost_usd"
  let outputAmount ← match fields.value "output_amount" with
    | .null => pure none
    | v => do
      let x ← v.toReal
      pure (some x)
  pure
    { timestamp, kind := .ofName (fields.textD "kind" "swap")
      inputToken := fields.textD "input_token" "A", inputAmount, price, fees, gas
      outputToken := (fields.value "output_token").text?, outputAmount
      slippage := (fields.value "slippage_pct").number? }

/-- Reads a position. -/
def NewPosition.ofFields (fields : Object α) : Except (Fault α) (NewPosition α) := do
  let opened ← Instant.ofValue (fields.valueD "entry_timestamp" defaultTime)
  let name := fields.textD "kind" ""
  match PositionKind.ofName? name with
  | none => throw (.ledger (.unknownPositionKind name))
  | some kind =>
    let amount ← (fields.value "amount").toReal
    let entryPrice ← (fields.value "entry_price").toReal
    let apy ← (fields.valueD "apy" (.real 0.0)).toReal
    pure
      { kind, asset := fields.textD "asset" "", amount, entryPrice, opened
        protocol := fields.textD "protocol" "", apy }

/-- A trade as an entry of the log. -/
def NewTrade.entry (t : NewTrade α) : Trade α :=
  { number := 0, timestamp := t.timestamp, kind := t.kind, inputToken := t.inputToken,
    inputAmount := t.inputAmount, price := t.price, fees := t.fees, gas := t.gas,
    outputToken := t.outputToken, outputAmount := t.outputAmount, slippage := t.slippage }

/-- Prices by token. -/
def quotesOf (v : Value α) : Quotes α := v.fieldsD.named.map fun (token, x) => (token, x.numD)

/-! ## State -/

/-- The written form of what an account holds. -/
def toValue (l : Ledger α) : Value α :=
  .record [("balances", .record (l.balances.map fun (token, x) => (token, .real x))),
    ("positions", .list (l.positions.map Position.toValue)),
    ("trade_count", .whole l.trades.length)]

/-! ## Commands -/

/-- The reply with the new balance of a token. -/
def replyBalance (token : String) (r : Except (LedgerFault α) (Ledger α)) :
    Except (Fault α) (Value α × Ledger α) := do
  let next ← r
  pure (.real (next.balance token), next)

/-- The reply with a position. -/
def replyPosition (r : Except (LedgerFault α) (Position α × Ledger α)) :
    Except (Fault α) (Value α × Ledger α) := do
  let (p, next) ← r
  pure (p.toValue, next)

/-- What a command answers, and the account after it. -/
def reply (l : Ledger α) (name : String) (first second : Value α) :
    Except (Fault α) (Value α × Ledger α) :=
  match name with
  | "add_balance" => replyBalance first.shown (l.credit first.shown second.numD)
  | "subtract_balance" => replyBalance first.shown (l.debit first.shown second.numD)
  | "get_balance" => pure (.real (l.balance first.shown), l)
  | "add_position" => do
    let p ← NewPosition.ofFields first.fieldsD
    pure ((l.nextOpened p).toValue, l.openPosition p)
  | "remove_position" => replyPosition (l.closePosition first.shown)
  | "reduce_position" => replyPosition (l.reducePosition first.shown second.numD)
  | "get_positions" =>
    let chosen (name : String) : Option String := (first.fieldsD.value name).text?
    pure (.list ((l.positionsWith (chosen "kind") (chosen "protocol") (chosen "asset")).map
      Position.toValue), l)
  | "accrue_interest" =>
    let (total, next) := l.accrueInterest first.numD
    pure (.real total, next)
  | "record_trade" => do
    let t ← NewTrade.ofFields first.fieldsD
    pure ((l.nextRecorded t).toValue, l.recordTrade t)
  | "trades" => pure (.list (l.trades.map Trade.toValue), l)
  | "total_gas_spent" => pure (.num l.totalGas, l)
  | "total_fees_spent" => pure (.num l.totalFees, l)
  | "calculate_equity" => pure (.real (l.equity (quotesOf first)), l)
  | _ => pure (.null, l)

/-- Performs a command; the account stays as it is if that fails. -/
def perform (l : Ledger α) (command : List (Value α)) :
    Except (Fault α) (Value α) × Ledger α :=
  let part (i : Nat) : Value α := command.getD i .null
  match l.reply (part 0).shown (part 1) (part 2) with
  | .ok (v, next) => (.ok v, next)
  | .error f => (.error f, l)

end Ledger

end StrategyLab
