/-
The settings of the program: defaults of a simulation and of the worker pool, and their checks.
Empty parts of a path and parts that stay in place have no meaning, so that they are left out of its
written form; the path of nothing is the present directory.
-/
import StrategyLab.Fault
import StrategyLab.Text.Pieces
import StrategyLab.Value.Fields

namespace StrategyLab.Path

/-- The present directory. -/
def here : String := "."

/-- The parts of a path that lead somewhere. -/
def parts (path : String) : List String :=
  ((Text.splitOn '/' path.toList).map String.ofList).filter fun part =>
    !part.isEmpty && part != here

/-- Whether a path begins at the root. -/
def isAbsolute (path : String) : Bool := path.startsWith "/"

/-- The written form. -/
def normal (path : String) : String :=
  let joined := String.intercalate "/" (parts path)
  if isAbsolute path then "/" ++ joined else if joined.isEmpty then here else joined

/-- A path below a directory; an absolute one stays as it is. -/
def join (directory path : String) : String :=
  if isAbsolute path then path
  else if directory.isEmpty ∨ directory.endsWith "/" then directory ++ path
  else directory ++ "/" ++ path

end StrategyLab.Path

namespace StrategyLab

/-- The settings. -/
structure Settings (α : Type) where
  initialCapital : Num α
  rebalanceInterval : Num α
  maxWorkers : Num α
  executor : String
  taskTimeout : Num α
  dataDirectory : String

namespace Settings

variable {α : Type} [Scalar α]

/-- The default base currency. -/
def baseCurrency : String := "USDC"

/-- The default step of a simulation in milliseconds. -/
def dayMilliseconds : Int := 86400000

/-- How often a failed evaluation is tried again. -/
def maxRetries : Int := 2

/-- The delay in seconds before the first retry. -/
def initialDelay : α := 1.0

/-- The longest delay in seconds before a retry. -/
def maxDelay : α := 5.0

/-- The directory for runs. -/
def runsDirectory : String := "runs"

/-- The default settings. -/
def default : Settings α :=
  { initialCapital := .real 10000.0, rebalanceInterval := .whole dayMilliseconds,
    maxWorkers := .whole 8, executor := "process", taskTimeout := .real 120.0,
    dataDirectory := "data" }

/-- The default settings, replaced by those that are given by name. -/
def ofFields (fields : Object α) : Settings α :=
  let d : Settings α := default
  { initialCapital := fields.numD "INITIAL_CAPITAL" d.initialCapital
    rebalanceInterval := fields.numD "REBALANCE_INTERVAL_MS" d.rebalanceInterval
    maxWorkers := fields.numD "OPTIMIZER_MAX_WORKERS" d.maxWorkers
    executor := fields.textD "OPTIMIZER_EXECUTOR" d.executor
    taskTimeout := fields.numD "OPTIMIZER_TASK_TIMEOUT" d.taskTimeout
    dataDirectory := fields.textD "DATA_DIR" d.dataDirectory }

/-- The kinds of worker pools. -/
def executors : List String := ["process", "thread"]

/-- Checks the settings in order. -/
def validate (s : Settings α) : Except (Fault α) Unit := do
  let positive (name : String) (x : Num α) : Except (Fault α) Unit :=
    if x.isAtMost (.whole 0) then throw (.request (.settingNotPositive name)) else pure ()
  positive "INITIAL_CAPITAL" s.initialCapital
  positive "REBALANCE_INTERVAL_MS" s.rebalanceInterval
  positive "OPTIMIZER_MAX_WORKERS" s.maxWorkers
  positive "OPTIMIZER_TASK_TIMEOUT" s.taskTimeout
  if !executors.contains s.executor then throw (.request .settingExecutor)

/-- The path of a file in the data directory. -/
def dataPath (s : Settings α) (file : String) : String := Path.join s.dataDirectory file

end Settings

end StrategyLab
