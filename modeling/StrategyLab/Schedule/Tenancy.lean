/-
Schedulers of one process whose workers are threads. All threads share the place for price data: one
that starts installs the data of its scheduler there, and whichever thread evaluates a task takes
what is installed. The single steps of the requests to all schedulers, and of their threads, come in
any order.
-/
import Mathlib.Logic.Function.Basic
import StrategyLab.Schedule.Scheduler

namespace StrategyLab

/-- How far a request to a scheduler is. -/
inductive RequestStage (α : Type) where
  /-- Not looked up. -/
  | received
  /-- No result is kept under the key; the next attempt follows `made` others and can be repeated
  `left` times. -/
  | ready (key : String) (made left : Nat)
  /-- A task with a number is handed in. -/
  | waiting (key : String) (task made left : Nat)
  /-- The attempt failed and is repeated after a delay. -/
  | resting (key : String) (d : Num α) (made left : Nat)
  /-- There is a result, which is not kept yet. -/
  | keeping (key : String) (r : StoredReport α)
  /-- Nothing more is tried. -/
  | failing (e : JobFault α)
  | answered (outcome : Except (JobFault α) (StoredReport α))
  deriving Inhabited

/-- A request to a scheduler. -/
structure Pending (α : Type) where
  job : Job α
  stage : RequestStage α
  deriving Inhabited

/-- What ends the wait for a task. -/
inductive Ending where
  | evaluated
  /-- No answer comes in time; a thread may be at the task. -/
  | expired (isAbandoned : Bool)
  /-- The threads cannot be started. -/
  | broken
  deriving DecidableEq

/-- What can happen to a scheduler. -/
inductive Event (α : Type) where
  | receive (job : Job α)
  | start
  | proceed (n : Nat)
  | finish (n : Nat) (how : Ending)
  | free

/-- What a scheduler is made with. -/
structure Setup (α : Type) where
  plan : SchedulerPlan α
  prices : Except (Fault α) (Oracle α)
  workers : Nat

/-- A scheduler with its requests, in the order in which they came, and its threads. -/
structure Tenant (α : Type) where
  scheduler : Scheduler α
  requests : List (Pending α)
  threads : Nat
  isBroken : Bool
  abandoned : Nat
  deriving Inhabited

/-- The schedulers of a process, and the price data that is installed. -/
structure Tenancy (ι α : Type) where
  installed : Option (Oracle α)
  tenants : ι → Tenant α

variable {ι α : Type} [Scalar α]

namespace RequestStage

/-- Where a request goes from what an attempt comes to. -/
def settle (plan : SchedulerPlan α) (key : String) (made left : Nat) :
    Except (JobFault α) (StoredReport α) → RequestStage α
  | .ok r => .keeping key r
  | .error e =>
    if !Scheduler.isRetryable e then .failing e
    else
      match left with
      | 0 => .failing e
      | n + 1 =>
        match Retry.delay plan.retry (made + 1 : Nat) with
        | .error cause => .failing (.fault (.value cause))
        | .ok d => .resting key d (made + 1) n

end RequestStage

namespace Pending

/-- The step of a request that neither waits nor has its answer. -/
def proceed (plan : SchedulerPlan α) (r : Pending α) (s : Scheduler α) : Option (RequestStage α × Scheduler α) :=
  match r.stage with
  | .received =>
    match Scheduler.fingerprint r.job with
    | .error f => some (.answered (.error (.fault f)), s)
    | .ok key =>
      match s.lookUp key with
      | (some stored, counted) => some (.answered (.ok stored), counted)
      | (none, counted) => some (.ready key 0 plan.retry.retries.toNat, counted)
  | .ready key made left =>
    let (task, busy) := s.handIn
    some (.waiting key task made left, busy)
  | .resting key d made left => some (.ready key made left, s.wait d)
  | .keeping key stored => some (.answered (.ok stored), s.keep key stored)
  | .failing (.failure f) => some (.answered (.error (.failure f)), s.report f)
  | .failing (.fault f) => some (.answered (.error (.fault f)), s)
  | .waiting .. | .answered _ => none

/-- Where a waiting request goes from what becomes of its task. -/
def finish (plan : SchedulerPlan α) (r : Pending α) (work : Object α → Completion α) (s : Scheduler α) :
    Option (Completion α × RequestStage α × Scheduler α) :=
  match r.stage with
  | .waiting key task made left =>
    let completion := work (Worker.request s!"task-{task}" r.job.blocks r.job.parameters r.job.config)
    some (completion, .settle plan key made left (Scheduler.failureOf plan r.job.parameters completion),
      if Scheduler.staysActive completion then s else s.release)
  | _ => none

end Pending

namespace Event

/-- The price data that an event installs. -/
def installs (c : Setup α) : Event α → Option (Oracle α)
  | .start => c.prices.toOption
  | _ => none

end Event

namespace Tenant

/-- A scheduler to which no request has come. -/
def fresh : Tenant α :=
  { scheduler := .empty, requests := [], threads := 0, isBroken := false, abandoned := 0 }

/-- The request for a job at a position, and the scheduler, have made a step. -/
def moved (t : Tenant α) (n : Nat) (job : Job α) (next : RequestStage α × Scheduler α) : Tenant α :=
  { t with scheduler := next.2, requests := t.requests.set n { job, stage := next.1 } }

/-- What becomes of a task, if its wait can end so. -/
def work (t : Tenant α) (installed : Option (Oracle α)) : Ending → Option (Object α → Completion α)
  | .evaluated => if 0 < t.threads then some fun request => .answered (Worker.answer installed request) else none
  | .expired isAbandoned => if isAbandoned && t.threads = 0 then none else some fun _ => .timedOut isAbandoned
  | .broken => if t.isBroken then some fun _ => .failed (.pool .notStarted) else none

/-- A request comes. -/
def receive (t : Tenant α) (job : Job α) : Tenant α :=
  { t with requests := t.requests ++ [{ job, stage := .received }] }

/-- Another thread starts. There are no more threads than workers, nor than tasks were handed in. -/
def start (c : Setup α) (t : Tenant α) : Option (Tenant α) :=
  if t.isBroken || c.workers ≤ t.threads || t.scheduler.submitted ≤ t.threads then none
  else
    match c.prices with
    | .ok _ => some { t with threads := t.threads + 1 }
    | .error _ => some { t with isBroken := true }

/-- The request at a position makes a step of its own. -/
def proceed (c : Setup α) (t : Tenant α) (n : Nat) : Option (Tenant α) := do
  let r ← t.requests[n]?
  let next ← r.proceed c.plan t.scheduler
  some (t.moved n r.job next)

/-- The wait of the request at a position ends. -/
def finish (c : Setup α) (installed : Option (Oracle α)) (t : Tenant α) (n : Nat) (how : Ending) :
    Option (Tenant α) := do
  let r ← t.requests[n]?
  let work ← t.work installed how
  let (completion, next) ← r.finish c.plan work t.scheduler
  let t := t.moved n r.job next
  some (if Scheduler.staysActive completion then { t with abandoned := t.abandoned + 1 } else t)

/-- A thread is done with an abandoned task. -/
def free (t : Tenant α) : Option (Tenant α) :=
  if t.abandoned = 0 then none
  else some { t with scheduler := t.scheduler.release, abandoned := t.abandoned - 1 }

/-- What an event makes of a scheduler, if it can happen while some price data is installed. -/
def act (c : Setup α) (installed : Option (Oracle α)) (t : Tenant α) : Event α → Option (Tenant α)
  | .receive job => some (t.receive job)
  | .start => t.start c
  | .proceed n => t.proceed c n
  | .finish n how => t.finish c installed n how
  | .free => t.free

end Tenant

namespace Tenancy

variable [DecidableEq ι]

/-- A process in which nothing has happened. -/
def fresh : Tenancy ι α := { installed := none, tenants := fun _ => .fresh }

/-- An event of one of the schedulers, if it can happen. -/
def act (setup : ι → Setup α) (p : Tenancy ι α) (i : ι) (e : Event α) : Option (Tenancy ι α) := do
  let t ← (p.tenants i).act (setup i) p.installed e
  some { installed := (e.installs (setup i)).or p.installed, tenants := Function.update p.tenants i t }

/-- Several events of the schedulers, if they can happen in this order. -/
def run (setup : ι → Setup α) (events : List (ι × Event α)) (p : Tenancy ι α) : Option (Tenancy ι α) :=
  events.foldlM (fun p event => p.act setup event.1 event.2) p

end Tenancy

end StrategyLab
