/-
The scheduler: it evaluates simulation requests on a pool of workers. Results are kept under a
fingerprint of strategy, parameters and configuration, so that no request is evaluated twice.
A failed evaluation is classified and, unless the strategy or its data are at fault, tried again;
a failure is reported once, when nothing more is tried.
-/
import StrategyLab.Schedule.Failure
import StrategyLab.Schedule.Retry
import StrategyLab.Schedule.Worker

namespace StrategyLab

/-- A strategy to be run with overriding parameters. -/
structure Job (α : Type) where
  blocks : List (Block α)
  parameters : Value α
  config : RunConfig α
  deriving Inhabited

/-- Reads a job for one of several strategies, by its position. -/
def Job.ofFields {α : Type} [Scalar α] (strategies : List (List (Block α)))
    (fields : Object α) : Except (Fault α) (Job α) := do
  let config ← RunConfig.ofValue (fields.value "config")
  pure
    { blocks := strategies.getD (fields.wholeD "strategy" 0).toNat []
      parameters := fields.valueD "parameters" (.object []), config }

/-- What becomes of a task that is handed to a pool. -/
inductive Completion (α : Type) where
  /-- A worker answers. -/
  | answered (r : Response α)
  /-- A worker reports an error of which it may know neither message nor parameters. -/
  | reported (message : Option String) (errorKind : Option String) (parameters : Value α)
  /-- No answer comes in time; an abandoned task keeps its worker busy. -/
  | timedOut (isAbandoned : Bool)
  /-- The pool breaks down. -/
  | lost (reason : String)
  /-- Handing in the task or fetching its answer fails. -/
  | failed (f : Fault α)
  deriving Inhabited

/-- A pool of workers with state `π`, to which requests are handed in. -/
abbrev Pool (π α : Type) := Object α → StateM π (Completion α)

/-- How a scheduler works. -/
structure SchedulerPlan (α : Type) where
  /-- How long to wait for an answer, in seconds. -/
  timeout : Num α
  retry : RetryPolicy α
  deriving Inhabited

/-- The plan of a scheduler with a kind of worker pool, which has to be known. -/
def SchedulerPlan.withExecutor {α : Type} (executor : String) (plan : SchedulerPlan α) :
    Except (Fault α) (SchedulerPlan α) :=
  if Settings.executors.contains executor then pure plan
  else throw (.request (.unknownExecutor executor))

/-- The plan of the settings. -/
def SchedulerPlan.default {α : Type} [Scalar α] : SchedulerPlan α :=
  { timeout := Settings.default.taskTimeout
    retry :=
      { retries := Settings.maxRetries, initialDelay := .real Settings.initialDelay
        maxDelay := .real Settings.maxDelay } }

/-- The plan given by its fields, that of the settings standing in for what is left out. -/
def SchedulerPlan.ofFields {α : Type} [Scalar α] (fields : Object α) :
    Except (Fault α) (SchedulerPlan α) :=
  let d : SchedulerPlan α := default
  withExecutor (fields.textD "executor" "thread")
    { timeout := fields.numD "timeout" d.timeout
      retry :=
        { retries := fields.wholeD "max_retries" d.retry.retries
          initialDelay := fields.numD "initial_delay" d.retry.initialDelay
          maxDelay := fields.numD "max_delay" d.retry.maxDelay } }

/-- What a scheduler knows. -/
structure Scheduler (α : Type) where
  /-- Results by fingerprint, the latest last. -/
  cache : List (String × StoredReport α)
  hits : Nat
  misses : Nat
  /-- Tasks that keep a worker busy. -/
  active : Int
  /-- Tasks handed in so far. -/
  submitted : Nat
  /-- Delays asked for so far. -/
  delays : List (Num α)
  /-- Failures reported so far. -/
  reported : List (Failure α)
  /-- How many of the reported failures have been fetched. -/
  fetched : Nat
  deriving Inhabited

/-- Why a job has no result. -/
inductive JobFault (α : Type) where
  /-- A failure that a worker, or the pool in its place, reports. -/
  | failure (f : Failure α)
  /-- Anything else. -/
  | fault (f : Fault α)
  deriving Inhabited

namespace Scheduler

variable {α : Type} [Scalar α]

/-! ## Single steps -/

/-- A scheduler without results. -/
def empty : Scheduler α :=
  { cache := [], hits := 0, misses := 0, active := 0, submitted := 0, delays := [],
    reported := [], fetched := 0 }

/-- The fingerprint of a job. -/
def fingerprint (j : Job α) : Except (Fault α) String :=
  Assignment.fingerprint (.record [("blocks", .list (j.blocks.map Block.toValue)),
    ("parameters", j.parameters), ("config", j.config.toValue)])

/-- Looks up a result, counting whether there is one. -/
def lookUp (s : Scheduler α) (key : String) : Option (StoredReport α) × Scheduler α :=
  match s.cache.lookup key with
  | some r => (some r, { s with hits := s.hits + 1 })
  | none => (none, { s with misses := s.misses + 1 })

/-- Keeps a result. -/
def keep (s : Scheduler α) (key : String) (r : StoredReport α) : Scheduler α :=
  { s with cache := s.cache.filter (fun (k, _) => k != key) ++ [(key, r)] }

/-- Hands in a task: its number, and the scheduler with one more active task. -/
def handIn (s : Scheduler α) : Nat × Scheduler α :=
  (s.submitted + 1, { s with submitted := s.submitted + 1, active := s.active + 1 })

/-- A task no longer keeps its worker busy. -/
def release (s : Scheduler α) : Scheduler α := { s with active := s.active - 1 }

/-- Asks for a delay. -/
def wait (s : Scheduler α) (d : Num α) : Scheduler α := { s with delays := s.delays ++ [d] }

/-- Reports a failure. -/
def report (s : Scheduler α) (f : Failure α) : Scheduler α :=
  { s with reported := s.reported ++ [f] }

/-- The failures reported since they were last fetched. -/
def fetchReported (s : Scheduler α) : List (Failure α) × Scheduler α :=
  (s.reported.drop s.fetched, { s with fetched := s.reported.length })

/-- The share of look-ups that found a result. -/
def hitRate (s : Scheduler α) : α :=
  if s.hits + s.misses = 0 then 0.0
  else Scalar.ofNat s.hits / Scalar.ofNat (s.hits + s.misses)

/-! ## Tasks -/

/-- The failure of a task that is not answered. -/
def failureOf (plan : SchedulerPlan α) (parameters : Value α) :
    Completion α → Except (JobFault α) (StoredReport α)
  | .answered (.result _ _ r) =>
    match StoredReport.ofValue r.toValue with
    | .ok stored => .ok stored
    | .error f => .error (.fault f)
  | .answered (.error _ echoed message errorKind) =>
    .error (.failure (.classify (if message.isEmpty then "Unknown worker error" else message)
      (some errorKind) (if echoed.isPresent then echoed else parameters)))
  | .reported message errorKind echoed =>
    .error (.failure (.classify (message.getD "Unknown worker error") errorKind
      (if echoed.isPresent then echoed else parameters)))
  | .timedOut _ =>
    .error (.failure (.classify ("Backtest timed out after " ++ plan.timeout.text ++ "s") none
      parameters))
  | .lost reason => .error (.failure (.classify ("Worker process died: " ++ reason) none parameters))
  | .failed f => .error (.fault f)

/-- Whether a task still keeps its worker busy when its outcome is known. -/
def staysActive : Completion α → Bool
  | .timedOut isAbandoned => isAbandoned
  | _ => false

/-- The state of a scheduler with its pool. -/
abbrev Run (π α β : Type) := StateM (Scheduler α × π) β

variable {π : Type}

/-- Changes the scheduler. -/
def change (f : Scheduler α → Scheduler α) : Run π α Unit :=
  modify fun (s, p) => (f s, p)

/-- Evaluates a job once. -/
def dispatch (plan : SchedulerPlan α) (pool : Pool π α) (j : Job α) :
    Run π α (Except (JobFault α) (StoredReport α)) := do
  let (s, p) ← get
  let (number, busy) := s.handIn
  let request := Worker.request s!"task-{number}" j.blocks j.parameters j.config
  let (completion, p) := (pool request).run p
  set (if staysActive completion then busy else busy.release, p)
  pure (failureOf plan j.parameters completion)

/-- Whether trying again may help. -/
def isRetryable : JobFault α → Bool
  | .failure f => f.isRetryable
  | .fault _ => false

/-- Evaluates a job that has no result yet, trying again where it may help. -/
def evaluate (plan : SchedulerPlan α) (pool : Pool π α) (j : Job α) :
    Run π α (Except (JobFault α) (StoredReport α)) := do
  let delay (attempt : Nat) : Except (JobFault α) (Num α) :=
    (Retry.delay plan.retry attempt).mapError fun cause => .fault (.value cause)
  let outcome ← Retry.run (dispatch plan pool j) isRetryable delay (fun d => change (·.wait d))
    plan.retry.retries
  match outcome with
  | .ok r => pure (.ok r)
  | .error stopped => do
    match stopped.cause with
    | .failure f => change (·.report f)
    | .fault _ => pure ()
    pure (.error stopped.cause)

/-! ## Jobs -/

/-- The result of a job: the one that is kept, or else that of an evaluation. -/
def runJob (plan : SchedulerPlan α) (pool : Pool π α) (j : Job α) :
    Run π α (Except (JobFault α) (StoredReport α)) := do
  match fingerprint j with
  | .error f => pure (.error (.fault f))
  | .ok key => do
    let (s, p) ← get
    let (found, counted) := s.lookUp key
    set (counted, p)
    match found with
    | some r => pure (.ok r)
    | none => do
      match ← evaluate plan pool j with
      | .ok r => do
        change (·.keep key r)
        pure (.ok r)
      | .error e => pure (.error e)

/-- The failure in whose place a fault stands in a batch. -/
def failureOfFault (f : Fault α) (parameters : Value α) : Failure α :=
  let message := f.message
  .classify (if message.isEmpty then f.kind.name else message) (some f.kind.name) parameters

/-- The result or the failure of one job of a batch; every failure has been reported. -/
def runMember (plan : SchedulerPlan α) (pool : Pool π α) (j : Job α) :
    Run π α (Except (Failure α) (StoredReport α)) := do
  match ← runJob plan pool j with
  | .ok r => pure (.ok r)
  | .error (.failure f) => pure (.error f)
  | .error (.fault f) => do
    let failure := failureOfFault f j.parameters
    change (·.report failure)
    pure (.error failure)

/-- The results or failures of several jobs, in their order. -/
def runBatch (plan : SchedulerPlan α) (pool : Pool π α) :
    List (Job α) → Run π α (List (Except (Failure α) (StoredReport α)))
  | [] => pure []
  | j :: rest => do
    let first ← runMember plan pool j
    let others ← runBatch plan pool rest
    pure (first :: others)

end Scheduler

end StrategyLab
