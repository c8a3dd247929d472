/-
The result of a run, its written form, and the form in which a stored result is read back.
-/
import StrategyLab.Ledger.Basic
import StrategyLab.Metrics
import StrategyLab.Time.Reading

namespace StrategyLab

/-! ## Statistics in writing -/

namespace Metrics

variable {α : Type} [Scalar α]

/-- The written form. -/
def toValue (m : Metrics (Value α)) : Value α := .record (names.zip m.toList)

/-- Statistics as values. -/
def written (m : Metrics (Num α)) : Metrics (Value α) := m.map .num

/-- Statistics given by name; a missing one is zero. -/
def ofFields (find : String → Option (Value α)) : Metrics (Value α) :=
  let real (name : String) : Value α := (find name).getD (.real 0.0)
  let count (name : String) : Value α := (find name).getD (.whole 0)
  { sharpeRatio := real "sharpe_ratio", totalReturn := real "total_return",
    maxDrawdown := real "max_drawdown", winTrades := count "win_trades",
    totalTrades := count "total_trades", totalGas := real "total_gas_spent",
    totalFees := real "total_fees_spent", sortinoRatio := real "sortino_ratio",
    calmarRatio := real "calmar_ratio", volatility := real "volatility",
    averageReturn := real "average_return", winRate := real "win_rate" }

/-- Reads statistics. A list or a text has none of them, unless it names one. -/
def ofValue (v : Value α) : Except (Fault α) (Metrics (Value α)) :=
  match v with
  | .object fields => pure (ofFields (Object.get? fields))
  | .list items | .tuple items =>
    if items.any fun
      | .text s => names.contains s
      | _ => false
    then throw (.value (.notIndexable v.kindName)) else pure (ofFields fun _ => none)
  | .text s =>
    if names.any fun name => (s.splitOn name).length ≠ 1 then throw (.value (.notIndexable "str"))
    else pure (ofFields fun _ => none)
  | v => throw (.value (.notIterable v.kindName))

end Metrics

/-! ## Results -/

/-- The result of a run. -/
structure Report (α : Type) where
  metrics : Metrics (Num α)
  /-- The value of the account after each executed step. -/
  curve : List (Instant × α)
  trades : List (Trade α)
  /-- Steps without a usable price for every needed token. -/
  skipped : Nat
  deriving Inhabited

/-- A result as it is stored: numbers are whatever is stored for them. -/
structure StoredReport (α : Type) where
  metrics : Metrics (Value α)
  curve : List (Instant × α)
  /-- For each trade its time and its other fields, in the order of their names. -/
  trades : List (Instant × List (Value α))
  skipped : Int
  deriving Inhabited

namespace Trade

variable {α : Type} [Scalar α]

/-- The names of a trade's fields in order. -/
def fieldNames : List String :=
  ["id", "timestamp", "kind", "input_token", "input_amount", "price", "fees_usd",
   "gas_cost_usd", "output_token", "output_amount", "slippage_pct"]

/-- The fields that every stored trade has. -/
def requiredNames : List String :=
  ["id", "timestamp", "kind", "input_token", "input_amount", "price"]

/-- What stands for a field that is not stored. -/
def defaultField (name : String) : Value α :=
  if name = "fees_usd" ∨ name = "gas_cost_usd" then .real 0.0 else .null

/-- Reads a stored trade: its time, and its other fields in order. -/
def readStored (v : Value α) : Except (Fault α) (Instant × List (Value α)) := do
  let fields ← v.toObject
  let timestamp ← Value.field fields "timestamp"
  let time ← Instant.ofValue timestamp
  match Object.unknownName? fieldNames fields with
  | some name => throw (.value (.unknownField "Trade" name))
  | none => pure ()
  let missing := requiredNames.filter fun name => !Object.has fields name
  if !missing.isEmpty then throw (.value (.missingFields "Trade" missing))
  let others := fieldNames.filter (· != "timestamp")
  pure (time, others.map fun name => (Object.get? fields name).getD (defaultField name))

/-- The written form of a stored trade. -/
def storedValue (time : Instant) (others : List (Value α)) : Value α :=
  let names := fieldNames.filter (· != "timestamp")
  .record (("timestamp", time.toValue) :: names.zip others)

/-- A trade as it is stored. -/
def stored (t : Trade α) : Instant × List (Value α) :=
  (t.timestamp,
    [.text t.id, .text t.kind.name, .text t.inputToken, .real t.inputAmount, .real t.price,
     .real t.fees, .real t.gas, .ofOption (t.outputToken.map .text),
     .ofOption (t.outputAmount.map .real), .ofOption (t.slippage.map .num)])

end Trade

variable {α : Type} [Scalar α]

/-- The written form of an equity curve. -/
def curveValue (curve : List (Instant × α)) : Value α :=
  .list (curve.map fun (t, x) => .record [("date", t.toValue), ("equity", .real x)])

namespace Report

/-- The written form. -/
def toValue (r : Report α) : Value α :=
  .record [("metrics", r.metrics.written.toValue), ("equity_curve", curveValue r.curve),
    ("trades", .list (r.trades.map Trade.toValue)), ("skipped_steps", .whole r.skipped)]

/-- The statistics and the lengths of the lists. -/
def summary (r : Report α) : Value α :=
  .record [("metrics", r.metrics.written.toValue), ("skipped_steps", .whole r.skipped),
    ("steps", .whole r.curve.length), ("trades", .whole r.trades.length)]

/-- A result as it is stored. -/
def stored (r : Report α) : StoredReport α :=
  { metrics := r.metrics.written, curve := r.curve, trades := r.trades.map Trade.stored,
    skipped := r.skipped }

end Report

namespace StoredReport

/-- Reads a point of an equity curve. -/
def readPoint (v : Value α) : Except (Fault α) (Instant × α) := do
  let fields ← match v with
    | .object fields => pure fields
    | v => throw (.value (.notIndexable v.kindName))
  let date ← Value.field fields "date"
  let time ← Instant.ofValue date
  let equity ← Value.field fields "equity"
  let x ← equity.toReal
  pure (time, x)

/-- The items of a list that may be missing. -/
def listField (fields : Object α) (name : String) : Except (Fault α) (List (Value α)) := do
  let found ← ((fields.get? name).getD (.list [])).items
  pure found

/-- Reads a stored result. -/
def ofValue (v : Value α) : Except (Fault α) (StoredReport α) := do
  let fields ← v.asObject
  let trades ← (← listField fields "trades").mapM Trade.readStored
  let written ← Value.field fields "metrics"
  let metrics ← Metrics.ofValue written
  let curve ← (← listField fields "equity_curve").mapM readPoint
  let skipped ← ((fields.get? "skipped_steps").getD (.whole 0)).toWhole
  pure { metrics, curve, trades, skipped }

/-- The written form without the times of the equity curve. -/
def summary (r : StoredReport α) : Value α :=
  .record [("metrics", r.metrics.toValue), ("equity", .list (r.curve.map fun (_, x) => .real x)),
    ("trades", .list (r.trades.map fun (t, others) => Trade.storedValue t others)),
    ("skipped_steps", .whole r.skipped)]

/-- The written form. -/
def toValue (r : StoredReport α) : Value α :=
  .record [("metrics", r.metrics.toValue), ("equity_curve", curveValue r.curve),
    ("trades", .list (r.trades.map fun (t, others) => Trade.storedValue t others)),
    ("skipped_steps", .whole r.skipped)]

end StoredReport

end StrategyLab
