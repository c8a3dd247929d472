/-
Written forms of price data and of the series that an oracle answers.
-/
import StrategyLab.Price.Oracle
import StrategyLab.Value.Fields

namespace StrategyLab

variable {α : Type} [Scalar α]

namespace PriceData

/-- Prices by their times. -/
def ofFields (fields : Object α) : PriceData α :=
  .columns (fields.map fun (k, _) => .text k.shown) (fields.map (·.2))

/-- Prices at instants a fixed number of milliseconds apart. -/
def evenly (start : Instant) (step : Int) (prices : List (Value α)) : PriceData α :=
  .points (prices.zipIdx.map fun (price, i) =>
    .list [.instant (.known (start.count + (i : Nat) * step * 1000000)) none, price])

/-- Reads price data: a list of points, an object with the parts of one of the other forms, or
prices by their times. -/
def ofValue (v : Value α) : Except (Fault α) (PriceData α) :=
  match v with
  | .list _ | .tuple _ | .text _ => do
    let points ← v.items
    pure (.points points)
  | .object fields =>
    if Object.has fields "start" then do
      let start ← Instant.ofValue (Object.value fields "start")
      pure (evenly start (Object.wholeD fields "step_ms" 86400000) (Object.items fields "values"))
    else if Object.has fields "points" then pure (.points (Object.items fields "points"))
    else if Object.has fields "map" then pure (ofFields (Object.fields fields "map"))
    else if Object.has fields "frame" then
      pure (.table ((Object.fields fields "frame").named.map fun (name, column) =>
        (name, column.itemsD)))
    else if Object.has fields "index" then
      pure (.columns (Object.items fields "index") (Object.items fields "values"))
    else pure (ofFields fields)
  | v => pure (.other v)

end PriceData

namespace Oracle

/-- Reads price data per token. -/
def ofValue (v : Value α) : Except (Fault α) (Oracle α) := do
  let data ← v.fieldsD.named.mapM fun (token, d) => do
    let x ← PriceData.ofValue d
    pure (token, x)
  ofData data

/-- The written form: a series per token. -/
def toValue (o : Oracle α) : Value α := .record (o.map fun (token, s) => (token, s.toValue))

/-- Answers a query: for the price of a token at an instant, or for the series of several tokens
around a range of time. -/
def answer (o : Oracle α) (query : Object α) : Except (Fault α) (Value α) := do
  match query.get? "token" with
  | some token =>
    let t ← Instant.ofValue (query.value "at")
    let price ← ((o.series? token.shown).getD #[]).priceAt t
    pure (.real price)
  | none =>
    let start ← Instant.ofValue (query.value "start")
    let stop ← Instant.ofValue (query.value "end")
    let found ← o.prices (query.value "tokens").names start stop (query.value "granularity")
    pure found.toValue

end Oracle

end StrategyLab
