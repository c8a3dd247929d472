/-
Optimization runs: assignments are proposed by a search, evaluated, and told back to it, until
there have been enough or the run is stopped. After every evaluation progress is told, to whoever
follows the run and may stop it. A run depends on its surroundings for evaluations, storage and
time; each of them may fail.
-/
import StrategyLab.Optimization.Evaluation
import StrategyLab.Optimization.Progress
import StrategyLab.Search.Bayesian
import StrategyLab.Validation

namespace StrategyLab

/-- The state of an optimizer. -/
structure Optimizer (α : Type) where
  status : Status
  stopRequested : Bool
  /-- The solutions so far, in the order of their evaluation. -/
  solutions : List (Solution α)
  iteration : Nat
  startedAt : α
  deriving Inhabited

/-- A part of a run in surroundings `μ`; what it has done before a fault stays done. -/
abbrev Stage (μ : Type → Type) (α β : Type) := ExceptT (Fault α) (StateT (Optimizer α) μ) β

/-- What a run depends on; `σ` is the source of random numbers. -/
structure Surroundings (μ : Type → Type) (σ α : Type) where
  /-- The source of random numbers with a seed. -/
  source : Option Int → Except (Fault α) σ
  /-- The plan of the walk-forward windows. -/
  plan : WindowPlan α
  /-- Evaluates an assignment under a name. -/
  evaluate : Evaluation α → String → Assignment α → μ (Except (Fault α) (Solution α))
  /-- The time in seconds. -/
  now : μ α
  /-- The share of look-ups that found a result. -/
  hitRate : μ α
  /-- Tasks that keep a worker busy. -/
  active : μ Int
  /-- Failures reported since they were last fetched. -/
  fetchReported : μ (List (Failure α))
  /-- Stores the configuration. -/
  storeConfig : Value α → μ (Except (Fault α) Unit)
  /-- Stores one more solution. -/
  storeSolution : Value α → μ (Except (Fault α) Unit)
  /-- Stores a checkpoint in place of the last one. -/
  storeCheckpoint : Value α → μ (Except (Fault α) Unit)
  /-- Stores the result. -/
  storeResult : Value α → μ (Except (Fault α) Unit)
  /-- Follows the run; it may stop it. -/
  follow : Progress α → Stage μ α Unit

namespace Optimizer

variable {μ : Type → Type} [Monad μ] {σ α : Type} [Scalar α]

/-! ## State -/

/-- An optimizer that has not run. -/
def idle : Optimizer α :=
  { status := .idle, stopRequested := false, solutions := [], iteration := 0, startedAt := 0.0 }

/-- The optimizer when asked to stop. -/
def stopped (o : Optimizer α) : Optimizer α :=
  { o with stopRequested := true, status := if o.status = .running then .stopped else o.status }

/-- Asks a run to stop; the evaluation under way is finished first. -/
def stop : Stage μ α Unit := modify stopped

/-- The optimizer at the beginning of a run. -/
def started (time : α) : Optimizer α :=
  { status := .running, stopRequested := false, solutions := [], iteration := 0,
    startedAt := time }

/-! ## Surroundings -/

/-- Something done in the surroundings. -/
def outside {β : Type} (action : μ β) : Stage μ α β := ExceptT.lift (StateT.lift action)

/-- Something done in the surroundings that may fail. -/
def attempting {β : Type} (action : μ (Except (Fault α) β)) : Stage μ α β := do
  match ← outside action with
  | .ok x => pure x
  | .error f => throw f

/-- A value that can be read, or the fault of reading it. -/
def reading {β : Type} (r : Except (ValueFault α) β) : Stage μ α β :=
  match r with
  | .ok x => pure x
  | .error cause => throw (.value cause)

/-- A value, or a fault. -/
def given {β : Type} (r : Except (Fault α) β) : Stage μ α β :=
  match r with
  | .ok x => pure x
  | .error f => throw f

/-! ## One evaluation -/

/-- The solution for an assignment; one that fails on all windows is a failed solution. -/
def solve (w : Surroundings μ σ α) (e : Evaluation α) (id : String) (a : Assignment α) :
    Stage μ α (Solution α) := do
  match ← outside (w.evaluate e id a) with
  | .ok s => pure s
  | .error (.allWindowsFailed candidate reason) =>
    let f : Fault α := .allWindowsFailed candidate reason
    pure (.ofFailure id a f.message e.windows.length)
  | .error f => throw f

/-- The progress of a run; the solutions are marked on the way. -/
def progress (w : Surroundings μ σ α) (c : SearchConfig α) : Stage μ α (Progress α) := do
  let o ← get
  let marked ← reading (Frontier.mark o.solutions c.objectives)
  set { o with solutions := marked }
  let time ← outside w.now
  let frontier := Frontier.members marked
  let best ← reading (Progress.bestOf c.primary frontier)
  let active ← outside w.active
  let failures ← outside w.fetchReported
  pure
    { iteration := o.iteration, maxIterations := c.maxIterations, best, frontier
      remaining := Progress.remainingTime (time - o.startedAt) o.iteration c.maxIterations
      active, failures }

/-- Evaluates an assignment, stores the solution, and tells the progress. -/
def step (w : Surroundings μ σ α) (e : Evaluation α) (c : SearchConfig α) (a : Assignment α) :
    Stage μ α (Solution α) := do
  let before ← get
  let s ← solve w e s!"solution-{before.solutions.length}" a
  modify fun o => { o with solutions := o.solutions ++ [s], iteration := o.iteration + 1 }
  attempting (w.storeSolution s.toValue)
  let p ← progress w c
  let hitRate ← outside w.hitRate
  let after ← get
  attempting (w.storeCheckpoint (p.checkpoint after.status hitRate))
  w.follow p
  pure s

/-! ## Search around the best observation -/

variable [RandomSource σ α]

/-- Evaluates samples until the run is stopped; the search, unless it was stopped. -/
def evaluateSamples (w : Surroundings μ σ α) (e : Evaluation α) (c : SearchConfig α) :
    List (Assignment α) → BayesianSearch α → Stage μ α (Option (BayesianSearch α))
  | [], search => pure (some search)
  | a :: rest, search => do
    if (← get).stopRequested then pure none
    else do
      let s ← step w e c a
      evaluateSamples w e c rest (search.observe ⟨a, s.scores⟩)

/-- Evaluates suggestions, at most `left` of them. -/
def evaluateSuggestions (w : Surroundings μ σ α) (e : Evaluation α) (c : SearchConfig α) :
    (left : Nat) → BayesianSearch α → σ → Stage μ α Unit
  | 0, _, _ => pure ()
  | left + 1, search, source => do
    let o ← get
    if o.iteration < c.maxIterations ∧ ¬ o.stopRequested then do
      let (suggested, next) := (search.suggest : Draw σ α (Assignment α)).run source
      let a ← given suggested
      let s ← step w e c a
      evaluateSuggestions w e c left (search.observe ⟨a, s.scores⟩) next
    else pure ()

/-- How many samples are evaluated before the first suggestion. -/
def initialSamples : Nat := 10

/-- Searches around the best observation. -/
def searchAround (w : Surroundings μ σ α) (e : Evaluation α) (c : SearchConfig α) :
    Stage μ α Unit := do
  let search ← given (BayesianSearch.start c.parameters c.objectives
    BayesianSearch.defaultCandidates BayesianSearch.defaultTarget)
  let source ← given (w.source c.seed)
  let (samples, next) :=
    (search.initialSamples (min initialSamples c.maxIterations : Nat) : StateM σ _).run source
  match ← evaluateSamples w e c samples search with
  | none => pure ()
  | some search => evaluateSuggestions w e c c.maxIterations search next

/-! ## Search by generations -/

/-- Evaluates the members of a population from a position on; the search, unless the run has to
end. -/
def evaluateMembers (w : Surroundings μ σ α) (e : Evaluation α) (c : SearchConfig α) :
    (position : Nat) → List (Assignment α) → GeneticSearch α →
    Stage μ α (Option (GeneticSearch α))
  | _, [], search => pure (some search)
  | position, a :: rest, search => do
    let o ← get
    if c.maxIterations ≤ o.iteration ∨ o.stopRequested then pure none
    else do
      let s ← step w e c a
      let fitness ← reading (search.fitnessOf s.scores)
      let updated ← reading (search.setFitness position fitness)
      evaluateMembers w e c (position + 1) rest updated

/-- Evaluates generations, at most `left` of them. -/
def evaluateGenerations (w : Surroundings μ σ α) (e : Evaluation α) (c : SearchConfig α) :
    (left : Nat) → GeneticSearch α → σ → Stage μ α Unit
  | 0, _, _ => pure ()
  | left + 1, search, source => do
    let o ← get
    if o.iteration < c.maxIterations ∧ ¬ o.stopRequested then do
      match ← evaluateMembers w e c 0 search.assignments search with
      | none => pure ()
      | some evaluated => do
        let (evolved, next) := (evaluated.evolve : Draw σ α (GeneticSearch α)).run source
        let search ← given evolved
        evaluateGenerations w e c left search next
    else pure ()

/-- Searches by generations. -/
def searchByGenerations (w : Surroundings μ σ α) (e : Evaluation α) (c : SearchConfig α) :
    Stage μ α Unit := do
  let empty ← given (GeneticSearch.start c.parameters c.objectives c.populationSize
    GeneticSearch.defaultRate)
  let source ← given (w.source c.seed)
  let (search, next) := (empty.populate : StateM σ _).run source
  evaluateGenerations w e c c.maxIterations search next

/-! ## A whole run -/

/-- Searches with the algorithm of the configuration. -/
def search (w : Surroundings μ σ α) (e : Evaluation α) (c : SearchConfig α) : Stage μ α Unit :=
  match c.algorithm with
  | .bayesian => searchAround w e c
  | .genetic => searchByGenerations w e c

/-- Refuses a strategy that is not valid. -/
def checkStrategy (blocks : List (Block α)) : Except (Fault α) Unit := do
  let issues ← Validation.issues blocks
  if !issues.isEmpty then
    throw (.structural (.invalidStrategy (String.intercalate "; "
      (issues.map fun i => i.blockId ++ ": " ++ i.complaint.message))))

/-- Everything before the first evaluation. -/
def begin (w : Surroundings μ σ α) (blocks : List (Block α)) (c : SearchConfig α) :
    Stage μ α (Evaluation α) := do
  if (← get).status = .running then throw .alreadyRunning
  given (checkStrategy blocks)
  let e ← given (Evaluation.ofPlan blocks c.run w.plan)
  let time ← outside w.now
  set (started time)
  attempting (w.storeConfig c.toValue)
  pure e

/-- Everything after the last evaluation. -/
def finish (w : Surroundings μ σ α) (c : SearchConfig α) : Stage μ α (SearchResult α) := do
  modify fun o => if o.status = .running then { o with status := .completed } else o
  let o ← get
  let marked ← reading (Frontier.mark o.solutions c.objectives)
  set { o with solutions := marked }
  let time ← outside w.now
  let hitRate ← outside w.hitRate
  let result : SearchResult α :=
    { config := c, solutions := marked, frontier := Frontier.members marked
      iterations := o.iteration, totalTime := time - o.startedAt, hitRate, status := o.status }
  attempting (w.storeResult result.toValue)
  pure result

/-- Runs an optimization. A fault during the search stops it. -/
def optimize (w : Surroundings μ σ α) (blocks : List (Block α)) (c : SearchConfig α) :
    Stage μ α (SearchResult α) := do
  let e ← begin w blocks c
  tryCatch (search w e c) fun f => do
    modify fun o => { o with status := .stopped }
    throw f
  finish w c

end Optimizer

end StrategyLab
