/-
Sessions: the surroundings of an optimization made of a scheduler with its pool, a run directory
if there is one, and a clock.
-/
import StrategyLab.Optimization.Run
import StrategyLab.Search.Twister
import StrategyLab.Store.RunDirectory
import StrategyLab.Value.Fields

namespace StrategyLab

/-- The state of a session: the scheduler, the state of its pool, and the run directory. -/
structure Session (π α : Type) where
  scheduler : Scheduler α
  pool : π
  directory : Option Directory

namespace Session

variable {μ : Type → Type} [Monad μ] {π α : Type} [Scalar α]

/-- The seed of a search that is given none. -/
def defaultSeed : Int := 0

/-- What does something to the scheduler and its pool. -/
def scheduling {β : Type} (action : Scheduler.Run π α β) : StateT (Session π α) μ β := do
  let s ← get
  let (x, scheduler, pool) := action.run (s.scheduler, s.pool)
  set { s with scheduler, pool }
  pure x

/-- What does something to the run directory, if there is one. -/
def storing (action : Directory → Except (ValueFault α) Directory) :
    StateT (Session π α) μ (Except (Fault α) Unit) := do
  let s ← get
  match s.directory with
  | none => pure (.ok ())
  | some d =>
    match action d with
    | .ok d => do
      set { s with directory := some d }
      pure (.ok ())
    | .error cause => pure (.error (.value cause))

/-- The holdings in a written configuration. -/
def writtenHoldings (config : Value α) : Object α :=
  (config.fieldsD.fields "backtest_config").fields "initial_holdings"

/-- The directory with a configuration. Its holdings are written in the order of their names, so
that names without an order cannot be written. -/
def writeConfig (d : Directory) (config : Value α) : Except (ValueFault α) Directory := do
  let _ ← Json.sortFields (writtenHoldings config)
  RunDirectory.write d RunDirectory.configFile config

/-- The surroundings of a run. -/
def surroundings (now : μ α) (windows : WindowPlan α) (plan : SchedulerPlan α)
    (pool : Pool π α) (follow : Progress α → Stage (StateT (Session π α) μ) α Unit) :
    Surroundings (StateT (Session π α) μ) Twister α :=
  { source := fun seed => Twister.ofSeed? (seed.getD defaultSeed)
    plan := windows
    evaluate := fun e id a => scheduling (e.run plan pool id a)
    now := StateT.lift now
    hitRate := do pure (← get).scheduler.hitRate
    active := do pure (← get).scheduler.active
    fetchReported := scheduling fun (s, p) =>
      let (failures, next) := s.fetchReported
      (failures, next, p)
    storeConfig := fun v => storing fun d => writeConfig d v
    storeSolution := fun v => storing fun d => RunDirectory.appendSolution d v
    storeCheckpoint := fun v =>
      storing fun d => RunDirectory.write d RunDirectory.checkpointFile v
    storeResult := fun v => storing fun d => RunDirectory.write d RunDirectory.resultFile v
    follow }

end Session

end StrategyLab
