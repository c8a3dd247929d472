/-
Performance and risk of a simulated run, from its equity curve and its trades. Ratios are
annualised over 365 days. A ratio without any risk to divide by is unbounded when there is a
gain to speak of.
-/
import StrategyLab.Ledger.Account
import StrategyLab.Number.Summation

namespace StrategyLab

/-- The statistics of a run. The type of the numbers is left open: a computed run has numbers, a
stored one whatever was stored. -/
structure Metrics (ν : Type) where
  sharpeRatio : ν
  totalReturn : ν
  maxDrawdown : ν
  winTrades : ν
  totalTrades : ν
  totalGas : ν
  totalFees : ν
  sortinoRatio : ν
  calmarRatio : ν
  volatility : ν
  averageReturn : ν
  winRate : ν
  deriving Repr, Inhabited

namespace Metrics

/-- The written names of the statistics, in order. -/
def names : List String :=
  ["sharpe_ratio", "total_return", "max_drawdown", "win_trades", "total_trades",
   "total_gas_spent", "total_fees_spent", "sortino_ratio", "calmar_ratio", "volatility",
   "average_return", "win_rate"]

/-- The statistics in the order of their names. -/
def toList {ν : Type} (m : Metrics ν) : List ν :=
  [m.sharpeRatio, m.totalReturn, m.maxDrawdown, m.winTrades, m.totalTrades, m.totalGas,
   m.totalFees, m.sortinoRatio, m.calmarRatio, m.volatility, m.averageReturn, m.winRate]

/-- The statistics with each number changed. -/
def map {ν μ : Type} (f : ν → μ) (m : Metrics ν) : Metrics μ :=
  { sharpeRatio := f m.sharpeRatio, totalReturn := f m.totalReturn,
    maxDrawdown := f m.maxDrawdown, winTrades := f m.winTrades, totalTrades := f m.totalTrades,
    totalGas := f m.totalGas, totalFees := f m.totalFees, sortinoRatio := f m.sortinoRatio,
    calmarRatio := f m.calmarRatio, volatility := f m.volatility,
    averageReturn := f m.averageReturn, winRate := f m.winRate }

variable {α : Type} [Scalar α]

/-! ## Returns -/

/-- The days of a year. -/
def daysPerYear : α := 365.0

/-- The relative change of each equity value to the next; a base that is not positive is left
out. -/
def returns : List α → List α
  | x :: y :: rest =>
    if 0.0 < x then (y - x) / x :: returns (y :: rest) else returns (y :: rest)
  | _ => []

/-- The annualised mean return above a rate, per annualised deviation; zero without deviation. -/
def sharpe (rs : List α) (riskFree : α) : α :=
  if rs.isEmpty then 0.0
  else
    let spread := Sample.deviation rs
    if spread == 0.0 || !Scalar.isFinite spread then 0.0
    else (Sample.mean rs * daysPerYear - riskFree) / (spread * Scalar.sqrt daysPerYear)

/-- The annualised mean return above a rate, per annualised deviation of the losses. Without
losses it is infinite for a positive mean and zero otherwise. -/
def sortino (rs : List α) (riskFree : α) : α :=
  if rs.isEmpty then 0.0
  else
    let mean := Sample.mean rs
    let losses := rs.filter fun r => decide (r < 0.0)
    if losses.isEmpty then (if 0.0 < mean then Scalar.infinity else 0.0)
    else
      let spread := Sample.deviation losses * Scalar.sqrt daysPerYear
      if spread == 0.0 then 0.0 else (mean * daysPerYear - riskFree) / spread

/-! ## Drawdown -/

/-- The larger of two scalars; undefined if one is. -/
def peakOf (x y : α) : α :=
  if Scalar.isUndefined x then x else if Scalar.isUndefined y then y else Scalar.greatest x y

/-- The decline from a peak in percent of the peak, zero where the peak is not positive. -/
def declineFrom (peak x : α) : α :=
  if 0.0 < peak then (peak - x) / peak * 100.0 else 0.0

/-- The declines from the running peak, `peak` being the one so far. -/
def declinesFrom (peak : α) : List α → List α
  | [] => []
  | x :: rest =>
    let p := peakOf peak x
    declineFrom p x :: declinesFrom p rest

/-- The declines from the running peak. -/
def declines : List α → List α
  | [] => []
  | x :: rest => declinesFrom x (x :: rest)

/-- A percentage, cut to the range from 0 to 100. -/
def clipPercent (x : α) : α :=
  if x < 0.0 then 0.0 else if 100.0 < x then 100.0 else x

/-- The largest decline from a running peak, in percent. -/
def drawdown (equity : List α) : α :=
  match declines equity with
  | [] => 0.0
  | d :: ds => clipPercent (ds.foldl peakOf d)

/-- The annualised return per largest decline, both in percent; infinite without a decline. -/
def calmar (totalReturn maxDrawdown days : α) : α :=
  if days ≤ 0.0 then 0.0
  else if maxDrawdown == 0.0 then Scalar.infinity
  else (totalReturn / 100.0) * (daysPerYear / days) / (maxDrawdown / 100.0)

/-! ## Wins -/

/-- Trades that open or close a pair. -/
def isPaired (t : Trade α) : Bool :=
  t.kind = .swap ∨ t.kind = .exit ∨ t.kind = .other "entry"

/-- A trade opens a pair. -/
def opensPair (t : Trade α) : Bool := t.kind = .swap ∨ t.kind = .other "entry"

/-- A trade closes a pair. -/
def closesPair (t : Trade α) : Bool := t.kind = .swap ∨ t.kind = .exit

/-- What the second trade of a pair brought: its own output if it has one, else the first one's
input at the second price. -/
def closingValue (entry exit : Trade α) : α :=
  match exit.outputAmount with
  | some y => if y == 0.0 then entry.inputAmount * exit.price else y * exit.price
  | none => entry.inputAmount * exit.price

/-- A pair wins when it brought more than was put in. -/
def isWin (entry exit : Trade α) : Bool :=
  decide (entry.inputAmount * entry.price < closingValue entry exit)

/-- The pairs of neighbours of which the first opens and the second closes. -/
def pairs : List (Trade α) → List (Trade α × Trade α)
  | a :: b :: rest =>
    if opensPair a && closesPair b then (a, b) :: pairs (b :: rest) else pairs (b :: rest)
  | _ => []

/-- How many pairs won, and how many there are; without pairs, how many trades could be paired. -/
def winLoss (trades : List (Trade α)) : Nat × Nat :=
  let relevant := trades.filter isPaired
  let found := pairs relevant
  let wins := (found.filter fun (a, b) => isWin a b).length
  (wins, if found.isEmpty then relevant.length else found.length)

/-! ## All statistics -/

/-- The change from one value to another in percent; zero from a value that is not positive. -/
def returnPercent (initial final : α) : α :=
  if 0.0 < initial then (final - initial) / initial * 100.0 else 0.0

/-- All statistics of a run. -/
def compute (equity : List α) (trades : List (Trade α)) (initialEquity days : α) :
    Metrics (Num α) :=
  let rs := returns equity
  let final := equity.getLastD initialEquity
  let totalReturn := returnPercent initialEquity final
  let maxDrawdown := drawdown equity
  let (wins, total) := winLoss trades
  let mean := if rs.isEmpty then 0.0 else Sample.mean rs
  let volatility :=
    if rs.isEmpty then 0.0 else Sample.deviation rs * Scalar.sqrt daysPerYear * 100.0
  { sharpeRatio := .real (sharpe rs 0.0)
    totalReturn := .real totalReturn
    maxDrawdown := .real maxDrawdown
    winTrades := .whole wins
    totalTrades := .whole total
    totalGas := .real (Ledger.totalOf (·.gas) trades).value
    totalFees := .real (Ledger.totalOf (·.fees) trades).value
    sortinoRatio := .real (sortino rs 0.0)
    calmarRatio := .real (calmar totalReturn maxDrawdown days)
    volatility := .real volatility
    averageReturn := .real (mean * 100.0)
    winRate := .real
      (if 0 < total then Scalar.ofNat wins / Scalar.ofNat total * 100.0 else 0.0) }

end Metrics

end StrategyLab
