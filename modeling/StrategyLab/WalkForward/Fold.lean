/-
Scores of a strategy over walk-forward windows: each simulated range has a score per objective,
and the scores in sample and out of sample are the means over the windows.
-/
import StrategyLab.Number.Summation
import StrategyLab.Search.Parameter
import StrategyLab.Simulation.Report

namespace StrategyLab

/-- The two ranges of a window. -/
inductive Phase where
  | train
  | test
  deriving Repr, DecidableEq, Inhabited

namespace Phase

/-- The written name. -/
def name : Phase → String
  | train => "train"
  | test => "test"

/-- The phase with a name. -/
def ofName? (s : String) : Option Phase := [train, test].find? (·.name == s)

end Phase

/-- The scores of one range of a window. -/
structure RangeScores (α : Type) where
  phase : Phase
  scores : Object α
  deriving Inhabited

namespace Fold

variable {α : Type} [Scalar α]

/-! ## Scores of a run -/

/-- The share of wins among trades; zero without trades. -/
def winShare (m : Metrics (Value α)) : Except (ValueFault α) α := do
  if ← m.totalTrades.isAbove (.whole 0) then
    match m.winTrades.number?, m.totalTrades.number? with
    | some _, some _ => do
      let wins ← m.winTrades.toReal
      let total ← m.totalTrades.toReal
      pure (wins / total)
    | _, _ => throw (.inoperable "/" m.winTrades.kindName m.totalTrades.kindName)
  else pure 0.0

/-- The scores of a run, from its statistics. -/
def scores (m : Metrics (Value α)) : Except (ValueFault α) (Object α) := do
  let winRate ← winShare m
  let sharpe ← m.sharpeRatio.toReal
  let totalReturn ← m.totalReturn.toReal
  let drawdown ← m.maxDrawdown.toReal
  let gas ← m.totalGas.toReal
  let fees ← m.totalFees.toReal
  pure ((Objective.names.zip [sharpe, totalReturn, drawdown, winRate, gas, fees]).map
    fun (name, x) => (.text name, .real x))

/-! ## Means over windows -/

/-- The mean of the defined terms; undefined without any. -/
def definedMean (xs : List α) : α :=
  let count := (xs.filter fun x => !Scalar.isUndefined x).length
  if count = 0 then Scalar.undefined
  else Sample.sum (xs.map fun x => if Scalar.isUndefined x then 0.0 else x) / Scalar.ofNat count

/-- The score of an objective: zero if there is none, undefined if it is nothing. -/
def scoreOf (scores : Object α) (name : String) : Except (ValueFault α) α :=
  match Object.get? scores name with
  | none => .ok 0.0
  | some .null => .ok Scalar.undefined
  | some v => v.toReal

/-- The mean score of an objective. -/
def meanScore (rows : List (Object α)) (name : String) : Except (ValueFault α) α := do
  let xs ← rows.mapM fun row => scoreOf row name
  pure (definedMean xs)

/-- The mean scores of all objectives; none without rows. -/
def meanScores (rows : List (Object α)) : Except (ValueFault α) (Object α) :=
  if rows.isEmpty then .ok []
  else
    Objective.names.mapM fun name => do
      let x ← meanScore rows name
      pure (.text name, .real x)

/-- The mean scores in sample and out of sample. -/
def aggregate (rows : List (RangeScores α)) :
    Except (ValueFault α) (Object α × Object α) := do
  let ofPhase (p : Phase) : List (Object α) := (rows.filter (·.phase = p)).map (·.scores)
  let inside ← meanScores (ofPhase .train)
  let outside ← meanScores (ofPhase .test)
  pure (inside, outside)

end Fold

end StrategyLab
