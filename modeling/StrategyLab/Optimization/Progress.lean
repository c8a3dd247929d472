/-
What an optimization tells while it runs and when it is done: progress after every evaluation,
checkpoints, and the result.
-/
import StrategyLab.Optimization.Config
import StrategyLab.Optimization.Frontier
import StrategyLab.Schedule.Failure

namespace StrategyLab

/-- Whether an optimization runs, or how it ended. -/
inductive Status where
  | idle
  | running
  | stopped
  | completed
  deriving Repr, DecidableEq, Inhabited

namespace Status

/-- The written name. -/
def name : Status → String
  | idle => "idle"
  | running => "running"
  | stopped => "stopped"
  | completed => "completed"

end Status

/-- What is told after an evaluation. -/
structure Progress (α : Type) where
  iteration : Nat
  maxIterations : Nat
  best : Option (Solution α)
  frontier : List (Solution α)
  /-- The expected time to the end in seconds. -/
  remaining : α
  /-- Tasks that keep a worker busy. -/
  active : Int
  /-- Failures reported since the last evaluation. -/
  failures : List (Failure α)
  deriving Inhabited

namespace Progress

variable {α : Type} [Scalar α]

/-- The best of the solutions on a frontier: the first one with the largest oriented score. -/
def bestOf (objective : String) (frontier : List (Solution α)) :
    Except (ValueFault α) (Option (Solution α)) := do
  let scored ← frontier.mapM fun s => do
    let x ← Objective.oriented s.scores objective
    pure (s, x)
  match scored with
  | [] => pure none
  | first :: rest =>
    pure (some (rest.foldl (fun best x => if best.2 < x.2 then x else best) first).1)

/-- The expected time to the end: as long for every iteration as for those before. -/
def remainingTime (elapsed : α) (iteration maxIterations : Nat) : α :=
  let perIteration := if 0 < iteration then elapsed / Scalar.ofNat iteration else 5.0
  Scalar.ofNat (maxIterations - iteration) * perIteration

/-- The written form with the status of the run; the count of active tasks is left out if it
means nothing. -/
def toValue (p : Progress α) (status : Status) (countsActive : Bool) : Value α :=
  .record [("iteration", .whole p.iteration), ("max_iterations", .whole p.maxIterations),
    ("best", .ofOption (p.best.map fun s => .text s.id)),
    ("frontier", .texts (p.frontier.map (·.id))), ("eta", .real p.remaining),
    ("active", if countsActive then .whole p.active else .null),
    ("errors", .list (p.failures.map Failure.toValue)), ("state", .text status.name)]

/-- The checkpoint of a run with a status. -/
def checkpoint (p : Progress α) (status : Status) (hitRate : α) : Value α :=
  .record [("state", .text status.name), ("iteration", .whole p.iteration),
    ("max_iterations", .whole p.maxIterations),
    ("pareto_frontier", .texts (p.frontier.map (·.id))),
    ("best_solution", .ofOption (p.best.map fun s => .text s.id)),
    ("cache_hit_rate", .real hitRate)]

end Progress

/-- The result of an optimization. -/
structure SearchResult (α : Type) where
  config : SearchConfig α
  solutions : List (Solution α)
  frontier : List (Solution α)
  iterations : Nat
  totalTime : α
  hitRate : α
  status : Status
  deriving Inhabited

namespace SearchResult

variable {α : Type} [Scalar α]

/-- The written form. -/
def toValue (r : SearchResult α) : Value α :=
  .record [("status", .text r.status.name), ("config", r.config.toValue),
    ("total_iterations", .whole r.iterations), ("total_time", .real r.totalTime),
    ("cache_hit_rate", .real r.hitRate),
    ("pareto_frontier", .texts (r.frontier.map (·.id))),
    ("solutions", .list (r.solutions.map Solution.toValue))]

end SearchResult

end StrategyLab
