/-
What comes of a command: how it ends, what it prints, the messages about errors, and the files of
the run that it leaves behind. The printed forms of results are here too.
-/
import StrategyLab.Json.Printer
import StrategyLab.Number.Decimal
import StrategyLab.Optimization.Progress
import StrategyLab.Simulation.Report
import StrategyLab.Store.RunDirectory

namespace StrategyLab.CommandLine

/-- How a command ends. -/
inductive Ending (α : Type) where
  /-- With an exit code. -/
  | code (n : Nat)
  /-- With a complaint about what it was given. -/
  | complaint (text : String)
  /-- With a fault that it does not report itself. -/
  | fault (f : Fault α)
  deriving Inhabited

/-- What comes of a command. -/
structure Outcome (α : Type) where
  ending : Ending α
  /-- What it prints. -/
  output : String
  /-- Messages about errors. -/
  log : List String
  /-- The directory of the run and its files, if there is one. -/
  saved : Option (String × Directory)
  deriving Inhabited

/-- What keeps a command from its end. -/
inductive Halt (α : Type) where
  | complaint (text : String)
  | fault (f : Fault α)
  deriving Inhabited

variable {α : Type} [Scalar α]

/-! ## Printed results -/

/-- Lines as they are printed. -/
def printed (lines : List String) : String := String.join (lines.map (· ++ "\n"))

/-- The printed report on a run. -/
def reportText (r : Report α) (showsTrades : Bool) : Except (ValueFault α) String := do
  let trades : List (String × Value α) :=
    if showsTrades then [("trades", .list (r.trades.map Trade.toValue))] else []
  let text ← Json.render ⟨true, false, false⟩ 0 (.record
    ([("metrics", r.metrics.written.toValue), ("skipped_steps", .whole r.skipped)] ++ trades))
  pure (printed [text])

/-- A text filled up with blanks on the right. -/
def padded (width : Nat) (s : String) : String :=
  s ++ String.ofList (List.replicate (width - s.length) ' ')

/-- The score of a solution, undefined if it has none. -/
def scoreOf (s : Solution α) (name : String) : α :=
  match Object.get? s.scores name with
  | some v => (v.number?.map Num.value).getD Scalar.undefined
  | none => Scalar.undefined

/-- The line of a solution on the frontier. -/
def solutionLine (objectives : List String) (s : Solution α) : String :=
  let scores := objectives.map fun name => name ++ "=" ++ Scalar.fixed 4 (scoreOf s name)
  "  " ++ padded 14 s.id ++ " " ++ String.intercalate " " scores ++ " degradation=" ++
    Scalar.fixed 1 s.degradation ++ "%"

/-- The printed summary of an optimization. -/
def summaryText (r : SearchResult α) (directory : String) : String :=
  printed
    (["Run " ++ r.status.name ++ ". Results saved to " ++ directory,
      "Iterations: " ++ Decimal.natText r.iterations ++ "  time: " ++ Scalar.fixed 1 r.totalTime ++
        "s  cache hit rate: " ++ Scalar.percent 1 r.hitRate,
      "Pareto frontier:"] ++ r.frontier.map (solutionLine r.config.objectives))

end StrategyLab.CommandLine
