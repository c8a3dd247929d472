/-
Batches whose jobs are evaluated at the same time. Up to a limit of jobs are under way, begun in
their order, and their single steps come in any order: looking up a result, handing in a task,
receiving its answer, resting before the next attempt, keeping a result, reporting a failure.
-/
import StrategyLab.Schedule.Scheduler

namespace StrategyLab

/-- How far a job of a batch is. -/
inductive JobStage (α : Type) where
  /-- Not begun. -/
  | queued
  /-- No result is kept under the key; the next attempt follows `made` others and can be repeated
  `left` times. -/
  | ready (key : String) (made left : Nat)
  /-- A worker evaluates a task with a number. -/
  | working (key : String) (task made left : Nat)
  /-- The attempt failed and is repeated after a delay. -/
  | resting (key : String) (d : Num α) (made left : Nat)
  /-- There is a result, which is not kept yet. -/
  | keeping (key : String) (r : StoredReport α)
  /-- There is a failure, which is not reported yet. -/
  | reporting (f : Failure α)
  /-- The job has its outcome. -/
  | done (outcome : Except (Failure α) (StoredReport α))
  deriving Inhabited

/-- A job of a batch. -/
structure Member (α : Type) where
  job : Job α
  stage : JobStage α
  deriving Inhabited

/-- A batch and the scheduler that evaluates it. -/
structure Batch (α : Type) where
  scheduler : Scheduler α
  members : List (Member α)
  deriving Inhabited

namespace JobStage

variable {α : Type}

/-- The job has not begun. -/
def isQueued : JobStage α → Bool
  | queued => true
  | _ => false

/-- The job has its outcome. -/
def isDone : JobStage α → Bool
  | done _ => true
  | _ => false

/-- The job has begun and has no outcome. -/
def isUnderWay (s : JobStage α) : Bool := !s.isQueued && !s.isDone

/-- The outcome of a job that has one. -/
def outcome? : JobStage α → Option (Except (Failure α) (StoredReport α))
  | done o => some o
  | _ => none

end JobStage

namespace Scheduler

variable {α : Type} [Scalar α]

/-- The failure in a batch for a job that has no result. -/
def failureFor (j : Job α) : JobFault α → Failure α
  | .failure f => f
  | .fault f => failureOfFault f j.parameters

/-- The request for a job in a task with a name. -/
def requestOf (id : String) (j : Job α) : Object α := Worker.request id j.blocks j.parameters j.config

/-- Where a job goes from an answer. -/
def settle (plan : SchedulerPlan α) (j : Job α) (key : String) (made left : Nat) :
    Except (JobFault α) (StoredReport α) → JobStage α
  | .ok r => .keeping key r
  | .error e =>
    if !isRetryable e then .reporting (failureFor j e)
    else
      match left with
      | 0 => .reporting (failureFor j e)
      | n + 1 =>
        match Retry.delay plan.retry (made + 1 : Nat) with
        | .error cause => .reporting (failureFor j (.fault (.value cause)))
        | .ok d => .resting key d (made + 1) n

end Scheduler

namespace Member

variable {α : Type} [Scalar α]

/-- The next step of a job, if it has no outcome. -/
def act (plan : SchedulerPlan α) (work : Object α → Completion α) (m : Member α) (s : Scheduler α) :
    Option (JobStage α × Scheduler α) :=
  match m.stage with
  | .queued =>
    match Scheduler.fingerprint m.job with
    | .error f => some (.reporting (Scheduler.failureOfFault f m.job.parameters), s)
    | .ok key =>
      match s.lookUp key with
      | (some r, counted) => some (.done (.ok r), counted)
      | (none, counted) => some (.ready key 0 plan.retry.retries.toNat, counted)
  | .ready key made left =>
    let (task, busy) := s.handIn
    some (.working key task made left, busy)
  | .working key task made left =>
    let completion := work (Scheduler.requestOf s!"task-{task}" m.job)
    some (Scheduler.settle plan m.job key made left (Scheduler.failureOf plan m.job.parameters completion),
      if Scheduler.staysActive completion then s else s.release)
  | .resting key d made left => some (.ready key made left, s.wait d)
  | .keeping key r => some (.done (.ok r), s.keep key r)
  | .reporting f => some (.done (.error f), s.report f)
  | .done _ => none

end Member

namespace Batch

variable {α : Type} [Scalar α]

/-- A batch of jobs of which none has begun. -/
def start (s : Scheduler α) (jobs : List (Job α)) : Batch α :=
  { scheduler := s, members := jobs.map fun job => { job, stage := .queued } }

/-- All jobs have their outcomes. -/
def isOver (b : Batch α) : Bool := b.members.all (·.stage.isDone)

/-- The outcomes in the order of the jobs, none for a job without one. -/
def outcomes (b : Batch α) : List (Option (Except (Failure α) (StoredReport α))) :=
  b.members.map (·.stage.outcome?)

/-- One job of a batch makes a step. A job begins when all before it have begun and fewer jobs than
the limit are under way. -/
inductive Step (plan : SchedulerPlan α) (work : Object α → Completion α) (limit : Nat) : Batch α → Batch α → Prop where
  | act {before after : List (Member α)} {m : Member α} {s s' : Scheduler α} {stage : JobStage α}
      (hturn : m.stage.isQueued = true → (∀ x ∈ before, x.stage.isQueued = false) ∧
        (before ++ after).countP (·.stage.isUnderWay) < limit)
      (hact : m.act plan work s = some (stage, s')) :
      Step plan work limit { scheduler := s, members := before ++ m :: after }
        { scheduler := s', members := before ++ { m with stage } :: after }

/-- A run of a batch in so many steps. -/
inductive Run (plan : SchedulerPlan α) (work : Object α → Completion α) (limit : Nat) :
    Nat → Batch α → Batch α → Prop where
  | none (b : Batch α) : Run plan work limit 0 b b
  | more {n : Nat} {a b c : Batch α} (hrun : Run plan work limit n a b) (hstep : Step plan work limit b c) :
      Run plan work limit (n + 1) a c

end Batch

end StrategyLab
