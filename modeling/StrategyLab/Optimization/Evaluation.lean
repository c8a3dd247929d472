/-
Evaluating an assignment: the strategy is run on both ranges of every walk-forward window, and
the scores of the runs are averaged. A window of which one run fails is left out; when all are,
the evaluation fails.
-/
import StrategyLab.Optimization.Frontier
import StrategyLab.Schedule.Scheduler
import StrategyLab.WalkForward.Fold
import StrategyLab.WalkForward.Window

namespace StrategyLab

/-- What is evaluated, and over which windows. -/
structure Evaluation (α : Type) where
  blocks : List (Block α)
  config : RunConfig α
  windows : List Window
  deriving Inhabited

namespace Evaluation

variable {α : Type} [Scalar α]

/-- The evaluation of a strategy over the windows of its range of time. -/
def ofPlan (blocks : List (Block α)) (config : RunConfig α) (plan : WindowPlan α) :
    Except (Fault α) (Evaluation α) := do
  let windows ← plan.windows config.start config.stop
  pure { blocks, config, windows }

/-! ## Jobs -/

/-- The job for a range of time. -/
def jobFor (e : Evaluation α) (a : Assignment α) (start stop : Int) :
    Except (Fault α) (Job α) := do
  let config ← e.config.withWindow (.instant (.known start) none) (.instant (.known stop) none)
  pure { blocks := e.blocks, parameters := .object a, config }

/-- The jobs of a window: training and test. -/
def jobsOf (e : Evaluation α) (a : Assignment α) (w : Window) :
    Except (Fault α) (List (Job α)) := do
  let train ← e.jobFor a w.start w.split
  let test ← e.jobFor a w.split w.stop
  pure [train, test]

/-- The jobs of all windows, in order. -/
def jobs (e : Evaluation α) (a : Assignment α) : Except (Fault α) (List (Job α)) := do
  let found ← e.windows.mapM (e.jobsOf a)
  pure found.flatten

/-! ## Scores -/

/-- What a job of a batch gives. -/
abbrev JobOutcome (α : Type) := Except (Failure α) (StoredReport α)

/-- The results of the windows of which both runs succeeded, and the failures of the others. -/
def split : List (JobOutcome α) → List (StoredReport α × StoredReport α) × List (Failure α)
  | .ok train :: .ok test :: rest =>
    let (kept, failed) := split rest
    ((train, test) :: kept, failed)
  | .error f :: _ :: rest | .ok _ :: .error f :: rest =>
    let (kept, failed) := split rest
    (kept, f :: failed)
  | _ => ([], [])

/-- The scores of both runs of a window. -/
def windowScores (w : StoredReport α × StoredReport α) :
    Except (ValueFault α) (List (RangeScores α)) := do
  let train ← Fold.scores w.1.metrics
  let test ← Fold.scores w.2.metrics
  pure [⟨.train, train⟩, ⟨.test, test⟩]

/-- The solution for an assignment with the outcomes of its jobs. -/
def solution (id : String) (a : Assignment α) (outcomes : List (JobOutcome α)) :
    Except (Fault α) (Solution α) := do
  let (kept, failed) := split outcomes
  if kept.isEmpty then
    throw (.allWindowsFailed id ((failed.head?.map Failure.describe).getD "No walk-forward windows"))
  let rows ← (kept.mapM windowScores : Except (ValueFault α) _)
  let (inside, outside) ← Fold.aggregate rows.flatten
  let degradation ← Degradation.ofScores inside outside
  pure
    { id, assignment := a, inside, outside, degradation, isOptimal := false, error := none
      windowsFailed := failed.length }

variable {π : Type}

/-- Evaluates an assignment through a scheduler. -/
def run (e : Evaluation α) (plan : SchedulerPlan α) (pool : Pool π α) (id : String)
    (a : Assignment α) : Scheduler.Run π α (Except (Fault α) (Solution α)) := do
  match e.jobs a with
  | .error f => pure (.error f)
  | .ok jobs => do
    let outcomes ← Scheduler.runBatch plan pool jobs
    pure (solution id a outcomes)

end Evaluation

end StrategyLab
