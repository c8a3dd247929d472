/-
Runs that keep a chronicle: of every draw from the source of random numbers, with the candidates it gave
and the source it left, and of every candidate that is evaluated, in the order in which they happen. The
run of an optimizer is what is left of such a run without its chronicle (`Traced.optimize_erases`).
-/
import StrategyLab.Proofs.Optimization.Stage

namespace StrategyLab

open Stage Optimizer

variable {ω σ α β γ : Type}

/-- Something that a run does. -/
inductive RunEvent (σ α : Type) where
  /-- Candidates are drawn, or the draw fails; it leaves the source `next`. -/
  | drawn (candidates : Except (Fault α) (List (Assignment α))) (next : σ)
  | evaluated (a : Assignment α)

/-- Surroundings, and what a run has done in them. -/
structure Chronicle (ω σ α : Type) where
  world : ω
  events : List (RunEvent σ α)

namespace Chronicle

/-- A stage that leaves the chronicle alone. -/
def lift (x : Stage (StateM ω) α β) : Stage (StateM (Chronicle ω σ α)) α β :=
  ExceptT.mk fun o w => ((execute x o w.world).1, { w with world := (execute x o w.world).2 })

theorem execute_lift (x : Stage (StateM ω) α β) (o : Optimizer α) (w : Chronicle ω σ α) :
    execute (lift x) o w = ((execute x o w.world).1, { w with world := (execute x o w.world).2 }) := rfl

/-- Puts something down in the chronicle. -/
def note (event : RunEvent σ α) : Stage (StateM (Chronicle ω σ α)) α PUnit :=
  outside (modify fun w => { w with events := w.events ++ [event] })

theorem execute_note (event : RunEvent σ α) (o : Optimizer α) (w : Chronicle ω σ α) :
    execute (note event) o w = ((.ok ⟨⟩, o), { w with events := w.events ++ [event] }) := rfl

end Chronicle

/-! ## Stages without their chronicle -/

open Chronicle

namespace Stage

/-- A stage is another one that keeps a chronicle besides. -/
def Erases (x : Stage (StateM (Chronicle ω σ α)) α β) (y : Stage (StateM ω) α β) : Prop :=
  ∀ o w, ((execute x o w).1, (execute x o w).2.world) = execute y o w.world

theorem Erases.lift (x : Stage (StateM ω) α β) : Erases (Chronicle.lift x : Stage (StateM (Chronicle ω σ α)) α β) x :=
  fun _ _ => rfl

theorem Erases.pure (b : β) : Erases (pure b : Stage (StateM (Chronicle ω σ α)) α β) (pure b : Stage (StateM ω) α β) :=
  fun _ _ => rfl

variable {x : Stage (StateM (Chronicle ω σ α)) α β} {y : Stage (StateM ω) α β}

theorem Erases.bind {f : β → Stage (StateM (Chronicle ω σ α)) α γ} {g : β → Stage (StateM ω) α γ} (hxy : Erases x y)
    (hfg : ∀ b, Erases (f b) (g b)) : Erases (x >>= f) (y >>= g) := by
  intro o w
  rw [execute_bind, execute_bind, ← hxy o w]
  rcases execute x o w with ⟨⟨r, o₁⟩, w₁⟩
  cases r with
  | ok b => exact hfg b o₁ w₁
  | error f => rfl

theorem Erases.note_bind {event : RunEvent σ α} {f : PUnit → Stage (StateM (Chronicle ω σ α)) α β} (h : Erases (f ⟨⟩) y) :
    Erases (note event >>= f) y := by
  intro o w
  rw [execute_bind]
  exact h o { w with events := w.events ++ [event] }

theorem Erases.get_bind {f : Optimizer α → Stage (StateM (Chronicle ω σ α)) α γ} {g : Optimizer α → Stage (StateM ω) α γ}
    (hfg : ∀ o, Erases (f o) (g o)) : Erases (get >>= f) (get >>= g) := by
  intro o w
  rw [execute_bind, execute_bind]
  exact hfg o o w

theorem Erases.given_bind {r : Except (Fault α) β} {f : β → Stage (StateM (Chronicle ω σ α)) α γ}
    {g : β → Stage (StateM ω) α γ} (hfg : ∀ b, Erases (f b) (g b)) : Erases (given r >>= f) (given r >>= g) := by
  cases r with
  | ok b => exact hfg b
  | error f => exact fun _ _ => rfl

theorem Erases.reading_bind {r : Except (ValueFault α) β} {f : β → Stage (StateM (Chronicle ω σ α)) α γ}
    {g : β → Stage (StateM ω) α γ} (hfg : ∀ b, Erases (f b) (g b)) : Erases (reading r >>= f) (reading r >>= g) := by
  cases r with
  | ok b => exact hfg b
  | error f => exact fun _ _ => rfl

theorem Erases.caught {f : Fault α → Stage (StateM (Chronicle ω σ α)) α β} {g : Fault α → Stage (StateM ω) α β}
    (hxy : Erases x y) (hfg : ∀ e, Erases (f e) (g e)) : Erases (tryCatch x f) (tryCatch y g) := by
  intro o w
  rw [execute_tryCatch, execute_tryCatch, ← hxy o w]
  rcases execute x o w with ⟨⟨r, o₁⟩, w₁⟩
  cases r with
  | ok b => rfl
  | error e => exact hfg e o₁ w₁

end Stage

/-! ## Runs with their chronicle -/

namespace Traced

variable [Scalar α] (S : Surroundings (StateM ω) σ α) (e : Evaluation α) (c : SearchConfig α)

/-- One evaluation. -/
def step (a : Assignment α) : Stage (StateM (Chronicle ω σ α)) α (Solution α) := do
  note (.evaluated a)
  lift (Optimizer.step S e c a)

/-- Evaluates samples. -/
def evaluateSamples : List (Assignment α) → BayesianSearch α →
    Stage (StateM (Chronicle ω σ α)) α (Option (BayesianSearch α))
  | [], search => pure (some search)
  | a :: rest, search => do
    if (← get).stopRequested then pure none
    else do
      let s ← step S e c a
      evaluateSamples rest (search.observe ⟨a, s.scores⟩)

/-- Evaluates the members of a population. -/
def evaluateMembers : Nat → List (Assignment α) → GeneticSearch α →
    Stage (StateM (Chronicle ω σ α)) α (Option (GeneticSearch α))
  | _, [], search => pure (some search)
  | position, a :: rest, search => do
    let o ← get
    if c.maxIterations ≤ o.iteration ∨ o.stopRequested then pure none
    else do
      let s ← step S e c a
      let fitness ← reading (search.fitnessOf s.scores)
      let updated ← reading (search.setFitness position fitness)
      evaluateMembers (position + 1) rest updated

variable [RandomSource σ α]

/-- Evaluates suggestions. -/
def evaluateSuggestions : Nat → BayesianSearch α → σ → Stage (StateM (Chronicle ω σ α)) α Unit
  | 0, _, _ => pure ()
  | left + 1, search, source => do
    let o ← get
    if o.iteration < c.maxIterations ∧ ¬ o.stopRequested then do
      let (suggested, next) := (search.suggest : Draw σ α (Assignment α)).run source
      note (.drawn (suggested.map fun a => [a]) next)
      let a ← given suggested
      let s ← step S e c a
      evaluateSuggestions left (search.observe ⟨a, s.scores⟩) next
    else pure ()

/-- Searches around the best observation. -/
def searchAround : Stage (StateM (Chronicle ω σ α)) α Unit := do
  let search ← given (BayesianSearch.start c.parameters c.objectives
    BayesianSearch.defaultCandidates BayesianSearch.defaultTarget)
  let source ← given (S.source c.seed)
  let (samples, next) :=
    (search.initialSamples (min initialSamples c.maxIterations : Nat) : StateM σ _).run source
  note (.drawn (.ok samples) next)
  match ← evaluateSamples S e c samples search with
  | none => pure ()
  | some search => evaluateSuggestions S e c c.maxIterations search next

/-- Evaluates generations. -/
def evaluateGenerations : Nat → GeneticSearch α → σ → Stage (StateM (Chronicle ω σ α)) α Unit
  | 0, _, _ => pure ()
  | left + 1, search, source => do
    let o ← get
    if o.iteration < c.maxIterations ∧ ¬ o.stopRequested then do
      match ← evaluateMembers S e c 0 search.assignments search with
      | none => pure ()
      | some evaluated => do
        let (evolved, next) := (evaluated.evolve : Draw σ α (GeneticSearch α)).run source
        note (.drawn (evolved.map (·.assignments)) next)
        let search ← given evolved
        evaluateGenerations left search next
    else pure ()

/-- Searches by generations. -/
def searchByGenerations : Stage (StateM (Chronicle ω σ α)) α Unit := do
  let empty ← given (GeneticSearch.start c.parameters c.objectives c.populationSize
    GeneticSearch.defaultRate)
  let source ← given (S.source c.seed)
  let (search, next) := (empty.populate : StateM σ _).run source
  note (.drawn (.ok search.assignments) next)
  evaluateGenerations S e c c.maxIterations search next

/-- Searches with the algorithm of the configuration. -/
def search : Stage (StateM (Chronicle ω σ α)) α Unit :=
  match c.algorithm with
  | .bayesian => searchAround S e c
  | .genetic => searchByGenerations S e c

/-- Runs an optimization. -/
def optimize (blocks : List (Block α)) : Stage (StateM (Chronicle ω σ α)) α (SearchResult α) := do
  let e ← lift (begin S blocks c)
  tryCatch (search S e c) fun f => do
    lift (modify fun o => { o with status := .stopped })
    throw f
  lift (finish S c)

/-! ### Without the chronicle -/

omit [RandomSource σ α] in
theorem step_erases (a : Assignment α) : Erases (step S e c a) (Optimizer.step S e c a) :=
  .note_bind (.lift _)

omit [RandomSource σ α] in
theorem evaluateSamples_erases (rest : List (Assignment α)) (search : BayesianSearch α) :
    Erases (evaluateSamples S e c rest search) (Optimizer.evaluateSamples S e c rest search) := by
  induction rest generalizing search with
  | nil => exact .pure _
  | cons a rest ih =>
    unfold evaluateSamples Optimizer.evaluateSamples
    refine .get_bind fun o => ?_
    split
    · exact .pure _
    · exact (step_erases S e c a).bind fun s => ih _

omit [RandomSource σ α] in
theorem evaluateMembers_erases (position : Nat) (rest : List (Assignment α)) (search : GeneticSearch α) :
    Erases (evaluateMembers S e c position rest search) (Optimizer.evaluateMembers S e c position rest search) := by
  induction rest generalizing position search with
  | nil => exact .pure _
  | cons a rest ih =>
    unfold evaluateMembers Optimizer.evaluateMembers
    refine .get_bind fun o => ?_
    split
    · exact .pure _
    · refine (step_erases S e c a).bind fun s => ?_
      exact .reading_bind fun fitness => .reading_bind fun updated => ih _ _

theorem evaluateSuggestions_erases (left : Nat) (search : BayesianSearch α) (source : σ) :
    Erases (evaluateSuggestions S e c left search source) (Optimizer.evaluateSuggestions S e c left search source) := by
  induction left generalizing search source with
  | zero => exact .pure _
  | succ left ih =>
    unfold evaluateSuggestions Optimizer.evaluateSuggestions
    refine .get_bind fun o => ?_
    split
    · refine .note_bind (.given_bind fun a => ?_)
      exact (step_erases S e c a).bind fun s => ih _ _
    · exact .pure _

theorem searchAround_erases : Erases (searchAround S e c) (Optimizer.searchAround S e c) := by
  unfold searchAround Optimizer.searchAround
  refine .given_bind fun search => .given_bind fun source => .note_bind ?_
  refine (evaluateSamples_erases S e c _ search).bind fun r => ?_
  cases r with
  | none => exact .pure _
  | some search => exact evaluateSuggestions_erases S e c _ search _

theorem evaluateGenerations_erases (left : Nat) (search : GeneticSearch α) (source : σ) :
    Erases (evaluateGenerations S e c left search source) (Optimizer.evaluateGenerations S e c left search source) := by
  induction left generalizing search source with
  | zero => exact .pure _
  | succ left ih =>
    unfold evaluateGenerations Optimizer.evaluateGenerations
    refine .get_bind fun o => ?_
    split
    · refine (evaluateMembers_erases S e c 0 _ search).bind fun r => ?_
      cases r with
      | none => exact .pure _
      | some evaluated => exact .note_bind (.given_bind fun next => ih _ _)
    · exact .pure _

theorem searchByGenerations_erases : Erases (searchByGenerations S e c) (Optimizer.searchByGenerations S e c) := by
  unfold searchByGenerations Optimizer.searchByGenerations
  refine .given_bind fun empty => .given_bind fun source => .note_bind ?_
  exact evaluateGenerations_erases S e c _ _ _

theorem search_erases : Erases (search S e c) (Optimizer.search S e c) := by
  unfold search Optimizer.search
  cases c.algorithm with
  | bayesian => exact searchAround_erases S e c
  | genetic => exact searchByGenerations_erases S e c

/-- A run with its chronicle is the run. -/
theorem optimize_erases (blocks : List (Block α)) :
    Erases (optimize S c blocks) (Optimizer.optimize S blocks c) := by
  unfold optimize Optimizer.optimize
  refine (Erases.lift _).bind fun e => ?_
  refine Erases.bind ?_ fun _ => .lift _
  exact (search_erases S e c).caught fun f => (Erases.lift _).bind fun _ _ _ => rfl

end Traced

end StrategyLab
