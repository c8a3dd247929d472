/-
Price data as it is handed in, and the series per token that a run reads from. Data comes as a
list of points, or as a column of times beside a column of prices. In a list every price must be
a number; in a column what is no number is left out.
-/
import StrategyLab.Block.Basic
import StrategyLab.Price.Series
import StrategyLab.Time.Reading

namespace StrategyLab

/-- Price data of one token. -/
inductive PriceData (α : Type) where
  /-- Points, each a pair or an object of a time and a price. -/
  | points (items : List (Value α))
  /-- A column of times and a column of prices. -/
  | columns (times prices : List (Value α))
  /-- A table, of which only the columns `timestamp` and `price` are used. -/
  | table (cols : List (String × List (Value α)))
  /-- A value that is none of these. -/
  | other (v : Value α)
  deriving Repr, Inhabited

namespace PriceData

variable {α : Type} [Scalar α]

/-- The time and the price of a point. -/
def pointOf (v : Value α) : Except (Fault α) (Value α × Value α) :=
  match v with
  | .object fields => do
    let time ← Value.field fields "timestamp"
    let price ← Value.field fields "price"
    pure (time, price)
  | v => do
    let found ← v.items
    match found with
    | [time, price] => pure (time, price)
    | _ => throw (.value (.wrongCount 2 found.length))

/-- The price of a point; nothing is an undefined price. -/
def strictPrice (v : Value α) : Except (Fault α) α :=
  match v with
  | .null => pure Scalar.undefined
  | .text s =>
    match Numeral.real? s with
    | some x => pure x
    | none => throw (.request .priceNotNumeric)
  | .list _ | .tuple _ => throw (.request .priceNotNumeric)
  | v => do
    let x ← v.toReal
    pure x

/-- The price in a column, undefined if it is no number. -/
def looseFrom (v : Value α) : α :=
  match v with
  | .text s =>
    if s.toList.all fun c => c.toNat < 128 ∧ c ≠ '_' then
      (Numeral.real? s).getD Scalar.undefined
    else Scalar.undefined
  | v =>
    match v.number? with
    | some x => (x.value?).getD Scalar.undefined
    | none => Scalar.undefined

/-- Times of a column. Beside numbers nothing but numbers, a missing one is an undefined number. -/
def settleTimes (times : List (Value α)) : List (Value α) :=
  let isNumber (v : Value α) : Bool := match v with
    | .num _ | .narrow _ => true
    | _ => false
  let isNull (v : Value α) : Bool := match v with
    | .null => true
    | _ => false
  if times.any isNumber && times.all fun v => isNumber v || isNull v then
    times.map fun v => if isNull v then .real Scalar.undefined else v
  else times

/-- The series of a column of times and the prices beside it. -/
def ofColumns (times : List (Value α)) (prices : List α) : Except (Fault α) (Series α) := do
  let stamps ← (settleTimes times).mapM Instant.ofValue
  pure (Series.ofSamples ((stamps.zip prices).map fun (time, price) => { time, price }))

/-- The series of price data. -/
def normalize (d : PriceData α) : Except (Fault α) (Series α) :=
  match d with
  | .points items => do
    let pairs ← items.mapM pointOf
    let prices ← pairs.mapM fun (_, price) => strictPrice price
    ofColumns (pairs.map (·.1)) prices
  | .columns times prices => ofColumns times (prices.map looseFrom)
  | .table cols =>
    match cols.lookup "timestamp", cols.lookup "price" with
    | some times, some prices => ofColumns times (prices.map looseFrom)
    | _, _ => throw (.data .frameWithoutColumns)
  | .other v => throw (.value (.notIterable v.kindName))

end PriceData

/-- The series of every token that has price data. -/
abbrev Oracle (α : Type) := List (String × Series α)

namespace Oracle

variable {α : Type} [Scalar α]

/-- The oracle over price data per token. -/
def ofData (data : List (String × PriceData α)) : Except (Fault α) (Oracle α) :=
  data.mapM fun (token, d) => do
    let series ← d.normalize
    pure (token, series)

/-- The tokens with price data, in order. -/
def tokens (o : Oracle α) : List String := (o.map (·.1)).mergeSort (· ≤ ·)

/-- The series of a token that has samples. -/
def series? (o : Oracle α) (token : String) : Option (Series α) :=
  (o.lookup token).filter fun s => !s.isEmpty

/-- A granularity as it is written; nothing asks for all samples. -/
def granularity? (v : Value α) : Except (Fault α) (Option Series.Granularity) :=
  match v with
  | .null => pure none
  | .list _ | .object _ => throw (.value (.notAKey v.kindName))
  | v =>
    let found := match v with
      | .text s => Series.Granularity.ofName? s
      | _ => none
    match found with
    | some g => pure (some g)
    | none => throw (.request (.unsupportedGranularity v.shown))

/-- The part of a series around a range of time, thinned out if asked for. -/
def window (series : Series α) (start stop : Instant) (granularity : Value α) :
    Except (Fault α) (Series α) := do
  let part := series.sliceAround start stop
  match ← granularity? granularity with
  | none => pure part
  | some g => pure (part.resample g)

/-- The series of the tokens that have samples, around a range of time. -/
def prices (o : Oracle α) (wanted : List String) (start stop : Instant) (granularity : Value α) :
    Except (Fault α) (Oracle α) :=
  (Block.firstSeen wanted).filterMapM fun token =>
    match o.series? token with
    | none => pure none
    | some series => do
      let part ← window series start stop granularity
      pure (some (token, part))

end Oracle

end StrategyLab
