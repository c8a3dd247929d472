/-
Two runs side by side. Surroundings that evaluate alike make runs that are alike: whatever else their
clocks, caches and stores say, each evaluation is of the same assignment under the same name, and both
runs end with the same solutions or raise the same fault (`optimize_mirrors`).
-/
import StrategyLab.Proofs.Agree
import StrategyLab.Proofs.Optimization.Stage

namespace StrategyLab

variable {ω ω' σ α β γ δ ε : Type}

/-! ## Stages -/

/-- Optimizers that differ in the time at which they were started only. -/
structure Optimizer.Alike (o o' : Optimizer α) : Prop where
  status : o.status = o'.status
  stopRequested : o.stopRequested = o'.stopRequested
  solutions : o.solutions = o'.solutions
  iteration : o.iteration = o'.iteration

/-- Progress that differs in what it tells about time and workers only. -/
structure Progress.Alike (p p' : Progress α) : Prop where
  iteration : p.iteration = p'.iteration
  maxIterations : p.maxIterations = p'.maxIterations
  best : p.best = p'.best
  frontier : p.frontier = p'.frontier

/-- Results that differ in time and in the share of results that were found only. -/
structure SearchResult.Alike (r r' : SearchResult α) : Prop where
  config : r.config = r'.config
  solutions : r.solutions = r'.solutions
  frontier : r.frontier = r'.frontier
  iterations : r.iterations = r'.iterations
  status : r.status = r'.status

/-- Two computations give related answers and leave related surroundings. -/
def Answers (I : ω → ω' → Prop) (R : β → γ → Prop) (x : StateM ω β) (y : StateM ω' γ) : Prop :=
  ∀ w w', I w w' → R (x.run w).1 (y.run w').1 ∧ I (x.run w).2 (y.run w').2

/-- Any two answers. -/
def anyAnswer (_ : β) (_ : γ) : Prop := True

namespace Stage

/-- Two stages go the same way: from optimizers that are alike, in related surroundings, they give related
results or raise one fault, and leave optimizers that are alike in related surroundings. -/
def Mirrors (I : ω → ω' → Prop) (R : β → γ → Prop) (x : Stage (StateM ω) α β) (y : Stage (StateM ω') α γ) : Prop :=
  ∀ o o' w w', o.Alike o' → I w w' →
    Agree Eq R (execute x o w).1.1 (execute y o' w').1.1 ∧ (execute x o w).1.2.Alike (execute y o' w').1.2 ∧
      I (execute x o w).2 (execute y o' w').2

variable {I : ω → ω' → Prop} {R : β → γ → Prop} {S : δ → ε → Prop}

theorem Mirrors.pure {b : β} {c : γ} (h : R b c) :
    Mirrors I R (pure b : Stage (StateM ω) α β) (pure c : Stage (StateM ω') α γ) := by
  intro o o' w w' ho hw
  exact ⟨.ok h, ho, hw⟩

theorem Mirrors.throw (f : Fault α) :
    Mirrors I R (throw f : Stage (StateM ω) α β) (throw f : Stage (StateM ω') α γ) := by
  intro o o' w w' ho hw
  exact ⟨.error rfl, ho, hw⟩

/-- After a fault nothing more is done. -/
theorem Mirrors.throw_bind (f : Fault α) (g : δ → Stage (StateM ω) α β) (g' : ε → Stage (StateM ω') α γ) :
    Mirrors I R (MonadExcept.throw f >>= g) (MonadExcept.throw f >>= g') := by
  intro o o' w w' ho hw
  exact ⟨.error rfl, ho, hw⟩

theorem Mirrors.bind {x : Stage (StateM ω) α β} {y : Stage (StateM ω') α γ} {f : β → Stage (StateM ω) α δ}
    {g : γ → Stage (StateM ω') α ε} (hxy : Mirrors I R x y) (hfg : ∀ b c, R b c → Mirrors I S (f b) (g c)) :
    Mirrors I S (x >>= f) (y >>= g) := by
  intro o o' w w' ho hw
  obtain ⟨hresult, ho₁, hw₁⟩ := hxy o o' w w' ho hw
  rw [execute_bind, execute_bind]
  generalize execute x o w = p at hresult ho₁ hw₁ ⊢
  generalize execute y o' w' = p' at hresult ho₁ hw₁ ⊢
  obtain ⟨⟨r, o₁⟩, w₁⟩ := p
  obtain ⟨⟨r', o₁'⟩, w₁'⟩ := p'
  dsimp only at hresult ho₁ hw₁
  cases hresult with
  | ok hbc => exact hfg _ _ hbc o₁ o₁' w₁ w₁' ho₁ hw₁
  | error he => exact ⟨.error he, ho₁, hw₁⟩

theorem Mirrors.bind_eq {x : Stage (StateM ω) α β} {y : Stage (StateM ω') α β} {f : β → Stage (StateM ω) α δ}
    {g : β → Stage (StateM ω') α ε} (hxy : Mirrors I Eq x y) (hfg : ∀ b, Mirrors I S (f b) (g b)) :
    Mirrors I S (x >>= f) (y >>= g) :=
  hxy.bind fun b _ hbc => hbc ▸ hfg b

/-- Faults that are caught are raised on both sides. -/
theorem Mirrors.caught {x : Stage (StateM ω) α β} {y : Stage (StateM ω') α γ} {f : Fault α → Stage (StateM ω) α β}
    {g : Fault α → Stage (StateM ω') α γ} (hxy : Mirrors I R x y) (hfg : ∀ e, Mirrors I R (f e) (g e)) :
    Mirrors I R (tryCatch x f) (tryCatch y g) := by
  intro o o' w w' ho hw
  obtain ⟨hresult, ho₁, hw₁⟩ := hxy o o' w w' ho hw
  rw [execute_tryCatch, execute_tryCatch]
  generalize execute x o w = p at hresult ho₁ hw₁ ⊢
  generalize execute y o' w' = p' at hresult ho₁ hw₁ ⊢
  obtain ⟨⟨r, o₁⟩, w₁⟩ := p
  obtain ⟨⟨r', o₁'⟩, w₁'⟩ := p'
  dsimp only at hresult ho₁ hw₁
  cases hresult with
  | ok hbc => exact ⟨.ok hbc, ho₁, hw₁⟩
  | @error e e' he =>
    subst he
    exact hfg e o₁ o₁' w₁ w₁' ho₁ hw₁

/-! ### Going on from one step -/

theorem Mirrors.get_bind {f : Optimizer α → Stage (StateM ω) α δ} {g : Optimizer α → Stage (StateM ω') α ε}
    (hfg : ∀ o o', o.Alike o' → Mirrors I S (f o) (g o')) : Mirrors I S (get >>= f) (get >>= g) := by
  have hget : Mirrors I Optimizer.Alike (get : Stage (StateM ω) α (Optimizer α)) (get : Stage (StateM ω') α (Optimizer α)) :=
    fun _ _ _ _ ho hw => ⟨.ok ho, ho, hw⟩
  exact hget.bind hfg

theorem Mirrors.set {o o' : Optimizer α} (h : o.Alike o') :
    Mirrors I Eq (set o : Stage (StateM ω) α PUnit) (set o' : Stage (StateM ω') α PUnit) :=
  fun _ _ _ _ _ hw => ⟨.ok rfl, h, hw⟩

theorem Mirrors.modify {k k' : Optimizer α → Optimizer α} (h : ∀ o o', o.Alike o' → (k o).Alike (k' o')) :
    Mirrors I Eq (modify k : Stage (StateM ω) α PUnit) (modify k' : Stage (StateM ω') α PUnit) :=
  fun _ _ _ _ ho hw => ⟨.ok rfl, h _ _ ho, hw⟩

theorem Mirrors.outside {x : StateM ω β} {y : StateM ω' γ} (h : Answers I R x y) :
    Mirrors I R (Optimizer.outside x : Stage (StateM ω) α β) (Optimizer.outside y : Stage (StateM ω') α γ) := by
  intro o o' w w' ho hw
  exact ⟨.ok (h w w' hw).1, ho, (h w w' hw).2⟩

theorem Mirrors.given (r : Except (Fault α) β) :
    Mirrors I Eq (Optimizer.given r : Stage (StateM ω) α β) (Optimizer.given r : Stage (StateM ω') α β) := by
  cases r with
  | ok b => exact .pure rfl
  | error f => exact .throw f

theorem Mirrors.reading (r : Except (ValueFault α) β) :
    Mirrors I Eq (Optimizer.reading r : Stage (StateM ω) α β) (Optimizer.reading r : Stage (StateM ω') α β) := by
  cases r with
  | ok b => exact .pure rfl
  | error cause => exact .throw (.value cause)

theorem Mirrors.attempting {x : StateM ω (Except (Fault α) β)} {y : StateM ω' (Except (Fault α) β)}
    (h : Answers I Eq x y) : Mirrors I Eq (Optimizer.attempting x) (Optimizer.attempting y) := by
  unfold Optimizer.attempting
  refine (Mirrors.outside h).bind_eq fun r => ?_
  cases r with
  | ok b => exact .pure rfl
  | error f => exact .throw f

end Stage

/-! ## Surroundings -/

open Stage

/-- Surroundings that evaluate alike. Only the configuration and the solutions are stored with an answer
that may depend on what is stored. -/
structure Surroundings.Alike (I : ω → ω' → Prop) (S : Surroundings (StateM ω) σ α) (S' : Surroundings (StateM ω') σ α) :
    Prop where
  source : S.source = S'.source
  plan : S.plan = S'.plan
  evaluate : ∀ e id a, Answers I Eq (S.evaluate e id a) (S'.evaluate e id a)
  now : Answers I anyAnswer S.now S'.now
  hitRate : Answers I anyAnswer S.hitRate S'.hitRate
  active : Answers I anyAnswer S.active S'.active
  fetchReported : Answers I anyAnswer S.fetchReported S'.fetchReported
  storeConfig : ∀ v, Answers I Eq (S.storeConfig v) (S'.storeConfig v)
  storeSolution : ∀ v, Answers I Eq (S.storeSolution v) (S'.storeSolution v)
  storeCheckpoint : ∀ v v', Answers I Eq (S.storeCheckpoint v) (S'.storeCheckpoint v')
  storeResult : ∀ v v', Answers I Eq (S.storeResult v) (S'.storeResult v')
  follow : ∀ p p', p.Alike p' → Mirrors I Eq (S.follow p) (S'.follow p')

namespace Optimizer

variable [Scalar α] {I : ω → ω' → Prop} {S : Surroundings (StateM ω) σ α} {S' : Surroundings (StateM ω') σ α}

section

variable (h : S.Alike I S') (e : Evaluation α) (c : SearchConfig α)

include h

/-! ## One evaluation -/

theorem solve_mirrors (id : String) (a : Assignment α) : Mirrors I Eq (solve S e id a) (solve S' e id a) := by
  unfold solve
  refine (Mirrors.outside (h.evaluate e id a)).bind_eq fun r => ?_
  cases r with
  | ok s => exact .pure rfl
  | error f => cases f <;> first | exact .pure rfl | exact .throw _

theorem progress_mirrors : Mirrors I Progress.Alike (progress S c) (progress S' c) := by
  unfold progress
  refine .get_bind fun o o' ho => ?_
  rw [ho.solutions]
  refine (Mirrors.reading _).bind_eq fun marked => ?_
  have hset : Optimizer.Alike { o with solutions := marked } { o' with solutions := marked } :=
    ⟨ho.status, ho.stopRequested, rfl, ho.iteration⟩
  refine (Mirrors.set hset).bind_eq fun _ => ?_
  refine (Mirrors.outside h.now).bind fun time time' _ => ?_
  refine (Mirrors.reading _).bind_eq fun best => ?_
  refine (Mirrors.outside h.active).bind fun _ _ _ => (Mirrors.outside h.fetchReported).bind fun _ _ _ => ?_
  exact .pure ⟨ho.iteration, rfl, rfl, rfl⟩

theorem step_mirrors (a : Assignment α) : Mirrors I Eq (step S e c a) (step S' e c a) := by
  unfold step
  refine .get_bind fun o o' ho => ?_
  rw [ho.solutions]
  refine (solve_mirrors h e _ a).bind_eq fun s => ?_
  refine (Mirrors.modify fun o o' ho => ?_).bind_eq fun _ => ?_
  · exact ⟨ho.status, ho.stopRequested, by rw [ho.solutions], by rw [ho.iteration]⟩
  refine (Mirrors.attempting (h.storeSolution _)).bind_eq fun _ => ?_
  refine (progress_mirrors h c).bind fun p p' hp => ?_
  refine (Mirrors.outside h.hitRate).bind fun rate rate' _ => .get_bind fun after after' _ => ?_
  -- where the runs differ, in times and hit rates, is stored here and not looked at again
  refine (Mirrors.attempting (h.storeCheckpoint _ _)).bind_eq fun _ => ?_
  exact (h.follow p p' hp).bind_eq fun _ => .pure rfl

/-! ## Search around the best observation -/

theorem evaluateSamples_mirrors (rest : List (Assignment α)) (search : BayesianSearch α) :
    Mirrors I Eq (evaluateSamples S e c rest search) (evaluateSamples S' e c rest search) := by
  induction rest generalizing search with
  | nil => exact .pure rfl
  | cons a rest ih =>
    unfold evaluateSamples
    refine .get_bind fun o o' ho => ?_
    rw [ho.stopRequested]
    split
    · exact .pure rfl
    · exact (step_mirrors h e c a).bind_eq fun s => ih _

variable [RandomSource σ α]

theorem evaluateSuggestions_mirrors (left : Nat) (search : BayesianSearch α) (source : σ) :
    Mirrors I Eq (evaluateSuggestions S e c left search source) (evaluateSuggestions S' e c left search source) := by
  induction left generalizing search source with
  | zero => exact .pure rfl
  | succ left ih =>
    unfold evaluateSuggestions
    refine .get_bind fun o o' ho => ?_
    rw [ho.stopRequested, ho.iteration]
    split
    · refine (Mirrors.given _).bind_eq fun a => ?_
      exact (step_mirrors h e c a).bind_eq fun s => ih _ _
    · exact .pure rfl

theorem searchAround_mirrors : Mirrors I Eq (searchAround S e c) (searchAround S' e c) := by
  unfold searchAround
  rw [h.source]
  refine (Mirrors.given _).bind_eq fun search => (Mirrors.given _).bind_eq fun source => ?_
  refine (evaluateSamples_mirrors h e c _ search).bind_eq fun r => ?_
  cases r with
  | none => exact .pure rfl
  | some search => exact evaluateSuggestions_mirrors h e c _ search _

/-! ## Search by generations -/

omit [RandomSource σ α] in
theorem evaluateMembers_mirrors (position : Nat) (rest : List (Assignment α)) (search : GeneticSearch α) :
    Mirrors I Eq (evaluateMembers S e c position rest search) (evaluateMembers S' e c position rest search) := by
  induction rest generalizing position search with
  | nil => exact .pure rfl
  | cons a rest ih =>
    unfold evaluateMembers
    refine .get_bind fun o o' ho => ?_
    rw [ho.stopRequested, ho.iteration]
    split
    · exact .pure rfl
    · refine (step_mirrors h e c a).bind_eq fun s => (Mirrors.reading _).bind_eq fun fitness => ?_
      exact (Mirrors.reading _).bind_eq fun updated => ih _ _

theorem evaluateGenerations_mirrors (left : Nat) (search : GeneticSearch α) (source : σ) :
    Mirrors I Eq (evaluateGenerations S e c left search source) (evaluateGenerations S' e c left search source) := by
  induction left generalizing search source with
  | zero => exact .pure rfl
  | succ left ih =>
    unfold evaluateGenerations
    refine .get_bind fun o o' ho => ?_
    rw [ho.stopRequested, ho.iteration]
    split
    · refine (evaluateMembers_mirrors h e c 0 _ search).bind_eq fun r => ?_
      cases r with
      | none => exact .pure rfl
      | some evaluated => exact (Mirrors.given _).bind_eq fun next => ih _ _
    · exact .pure rfl

theorem searchByGenerations_mirrors : Mirrors I Eq (searchByGenerations S e c) (searchByGenerations S' e c) := by
  unfold searchByGenerations
  rw [h.source]
  refine (Mirrors.given _).bind_eq fun empty => (Mirrors.given _).bind_eq fun source => ?_
  exact evaluateGenerations_mirrors h e c _ _ _

theorem search_mirrors : Mirrors I Eq (search S e c) (search S' e c) := by
  unfold search
  cases c.algorithm with
  | bayesian => exact searchAround_mirrors h e c
  | genetic => exact searchByGenerations_mirrors h e c

/-! ## Whole runs -/

omit [RandomSource σ α] in
theorem begin_mirrors (blocks : List (Block α)) : Mirrors I Eq (begin S blocks c) (begin S' blocks c) := by
  unfold begin
  refine .get_bind fun o o' ho => ?_
  rw [ho.status, h.plan]
  dsimp only
  split
  · exact .throw_bind _ _ _
  · refine (Mirrors.given _).bind_eq fun _ => (Mirrors.given _).bind_eq fun e => ?_
    refine (Mirrors.outside h.now).bind fun time time' _ => ?_
    have hset : (started time).Alike (started time') := ⟨rfl, rfl, rfl, rfl⟩
    refine (Mirrors.set hset).bind_eq fun _ => ?_
    exact (Mirrors.attempting (h.storeConfig _)).bind_eq fun _ => .pure rfl

omit [RandomSource σ α] in
theorem finish_mirrors : Mirrors I SearchResult.Alike (finish S c) (finish S' c) := by
  unfold finish
  refine (Mirrors.modify fun o o' ho => ?_).bind_eq fun _ => .get_bind fun o o' ho => ?_
  · rw [ho.status]
    split
    · exact ⟨rfl, ho.stopRequested, ho.solutions, ho.iteration⟩
    · exact ho
  rw [ho.solutions]
  refine (Mirrors.reading _).bind_eq fun marked => ?_
  have hset : Optimizer.Alike { o with solutions := marked } { o' with solutions := marked } :=
    ⟨ho.status, ho.stopRequested, rfl, ho.iteration⟩
  refine (Mirrors.set hset).bind_eq fun _ => ?_
  refine (Mirrors.outside h.now).bind fun _ _ _ => (Mirrors.outside h.hitRate).bind fun _ _ _ => ?_
  refine (Mirrors.attempting (h.storeResult _ _)).bind_eq fun _ => .pure ?_
  exact ⟨rfl, rfl, rfl, ho.iteration, ho.status⟩

/-- Runs in surroundings that evaluate alike are alike. -/
theorem optimize_mirrors (blocks : List (Block α)) :
    Mirrors I SearchResult.Alike (optimize S blocks c) (optimize S' blocks c) := by
  unfold optimize
  refine (begin_mirrors h c blocks).bind_eq fun e => ?_
  refine Mirrors.bind_eq ?_ fun _ => finish_mirrors h c
  refine (search_mirrors h e c).caught fun f => ?_
  refine (Mirrors.modify fun o o' ho => ?_).bind_eq fun _ => .throw f
  exact ⟨rfl, ho.stopRequested, ho.solutions, ho.iteration⟩

end

/-! ## Earlier runs of an optimizer -/

/-- A run that is begun leaves nothing of earlier runs of its optimizer. -/
theorem begin_anew (S : Surroundings (StateM ω) σ α) (c : SearchConfig α) (blocks : List (Block α)) {o o' : Optimizer α}
    (h : o.status ≠ .running) (h' : o'.status ≠ .running) (w : ω) :
    (execute (begin S blocks c) o w).1.1 = (execute (begin S blocks c) o' w).1.1 ∧
      (execute (begin S blocks c) o w).2 = (execute (begin S blocks c) o' w).2 ∧
      ∀ e, (execute (begin S blocks c) o w).1.1 = .ok e →
        (execute (begin S blocks c) o w).1.2 = (execute (begin S blocks c) o' w).1.2 := by
  unfold begin
  rw [execute_get_bind, execute_get_bind, if_neg h, if_neg h']
  cases checkStrategy blocks with
  | error f => exact ⟨rfl, rfl, nofun⟩
  | ok u =>
    cases Evaluation.ofPlan blocks c.run S.plan with
    | error f => exact ⟨rfl, rfl, nofun⟩
    | ok e => exact ⟨rfl, rfl, fun _ _ => rfl⟩

/-- While a run is going on no other one is begun, and nothing is done. -/
theorem begin_running (S : Surroundings (StateM ω) σ α) (c : SearchConfig α) (blocks : List (Block α)) {o : Optimizer α}
    (h : o.status = .running) (w : ω) : execute (begin S blocks c) o w = ((.error .alreadyRunning, o), w) := by
  unfold begin
  rw [execute_get_bind, if_pos h]
  rfl

theorem optimize_running [RandomSource σ α] (S : Surroundings (StateM ω) σ α) (c : SearchConfig α) (blocks : List (Block α))
    {o : Optimizer α} (h : o.status = .running) (w : ω) :
    execute (optimize S blocks c) o w = ((.error .alreadyRunning, o), w) := by
  unfold optimize
  rw [execute_bind, begin_running S c blocks h]

/-- What a run gives and does depends on what its optimizer did before only where a run is going on already. -/
theorem optimize_afresh [RandomSource σ α] (S : Surroundings (StateM ω) σ α) (c : SearchConfig α) (blocks : List (Block α))
    {o o' : Optimizer α} (h : o.status ≠ .running) (h' : o'.status ≠ .running) (w : ω) :
    (execute (optimize S blocks c) o w).1.1 = (execute (optimize S blocks c) o' w).1.1 ∧
      (execute (optimize S blocks c) o w).2 = (execute (optimize S blocks c) o' w).2 := by
  unfold optimize
  rw [execute_bind, execute_bind]
  obtain ⟨hresult, hworld, hoptimizer⟩ := begin_anew S c blocks h h' w
  generalize execute (begin S blocks c) o w = p at hresult hworld hoptimizer ⊢
  generalize execute (begin S blocks c) o' w = p' at hresult hworld hoptimizer ⊢
  obtain ⟨⟨r, o₁⟩, w₁⟩ := p
  obtain ⟨⟨r', o₁'⟩, w₁'⟩ := p'
  obtain rfl : r = r' := hresult
  obtain rfl : w₁ = w₁' := hworld
  cases r with
  | error f => exact ⟨rfl, rfl⟩
  | ok e =>
    obtain rfl : o₁ = o₁' := hoptimizer e rfl
    exact ⟨rfl, rfl⟩

/-- The result of a run depends on what its optimizer did before only where a run is going on already. -/
theorem optimize_anew [RandomSource σ α] (S : Surroundings (StateM ω) σ α) (c : SearchConfig α) (blocks : List (Block α))
    {o o' : Optimizer α} (h : o.status = .running ↔ o'.status = .running) (w : ω) :
    (execute (optimize S blocks c) o w).1.1 = (execute (optimize S blocks c) o' w).1.1 := by
  by_cases hrunning : o.status = .running
  · rw [optimize_running S c blocks hrunning, optimize_running S c blocks (h.1 hrunning)]
  · exact (optimize_afresh S c blocks hrunning (fun h' => hrunning (h.2 h')) w).1

end Optimizer

end StrategyLab
