/-
Runs on any scheduler. A batch may be gone through on any number of workers and in any order of steps,
and the scheduler may have kept whatever earlier requests left: as long as workers give one result to
requests that JSON text cannot tell apart, an optimization comes to the same solutions
(`optimize_settled`). One whose workers tell a fixed sequence from a list does not
(`list_answered_as_tuple`).
-/
import StrategyLab.Proofs.Optimization.Budget
import StrategyLab.Proofs.Optimization.Mirror
import StrategyLab.Proofs.Schedule.Batch
import StrategyLab.Proofs.Schedule.Settled

namespace StrategyLab

open Stage

variable {κ κ' σ α : Type} [Scalar α] {plan : SchedulerPlan α} {work : Object α → Completion α}

/-! ## Conducts -/

/-- How batches are gone through: on how many workers, and in which order of steps, which may depend on
all that happened before. -/
structure Conduct (plan : SchedulerPlan α) (work : Object α → Completion α) (κ : Type) where
  limit : Nat
  finish : κ → Scheduler α → List (Job α) → Batch α × κ
  reached : ∀ k s jobs, Batch.Reaches plan work limit (Batch.start s jobs) (finish k s jobs).1
  ends : ∀ k s jobs, (finish k s jobs).1.isOver = true

namespace Conduct

/-- The outcomes of the jobs of a batch. -/
def batch (d : Conduct plan work κ) (jobs : List (Job α)) :
    StateM (Scheduler α × κ) (List (Except (Failure α) (StoredReport α))) := fun x =>
  ((d.finish x.2 x.1 jobs).1.outcomes.reduceOption, ((d.finish x.2 x.1 jobs).1.scheduler, (d.finish x.2 x.1 jobs).2))

/-- Evaluates an assignment. -/
def evaluate (d : Conduct plan work κ) (e : Evaluation α) (id : String) (a : Assignment α) :
    StateM (Scheduler α × κ) (Except (Fault α) (Solution α)) :=
  match e.jobs a with
  | .error f => pure (.error f)
  | .ok jobs => do
    let outcomes ← d.batch jobs
    pure (Evaluation.solution id a outcomes)

/-! ### One job after the other -/

/-- A batch whose jobs were evaluated one after the other. -/
def oneByOne (plan : SchedulerPlan α) (work : Object α → Completion α) (k : κ) (s : Scheduler α) (jobs : List (Job α)) :
    Batch α × κ :=
  let (os, s', k') := Scheduler.runBatch plan (Batch.answering κ work) jobs (s, k)
  (⟨s', jobs.zipWith (fun j o => ⟨j, .done o⟩) os⟩, k')

variable (plan work) in
theorem oneByOne_spec {limit : Nat} (hlimit : 0 < limit) (k : κ) (s : Scheduler α) (jobs : List (Job α)) :
    ∃ os s', Scheduler.runBatch plan (Batch.answering κ work) jobs (s, k) = (os, (s', k)) ∧ os.length = jobs.length ∧
      oneByOne plan work k s jobs = (⟨s', jobs.zipWith (fun j o => ⟨j, .done o⟩) os⟩, k) ∧
      Batch.Reaches plan work limit (Batch.start s jobs) ⟨s', jobs.zipWith (fun j o => ⟨j, .done o⟩) os⟩ := by
  obtain ⟨os, s', hrun, hlength, hreaches⟩ := Batch.runBatch_reaches plan work hlimit k jobs [] s
    fun _ h => absurd h List.not_mem_nil
  refine ⟨os, s', hrun, hlength, ?_, hreaches⟩
  unfold oneByOne
  rw [hrun]

omit [Scalar α] in
theorem reduceOption_some {β : Type} (xs : List β) : (xs.map some).reduceOption = xs := by
  simp [List.reduceOption]

omit [Scalar α] in
theorem outcomes_done (s : Scheduler α) {jobs : List (Job α)} {os : List (Except (Failure α) (StoredReport α))}
    (hlength : os.length = jobs.length) :
    Batch.outcomes ⟨s, jobs.zipWith (fun j o => ⟨j, .done o⟩) os⟩ = os.map some := by
  refine List.ext_getElem (by simp [Batch.outcomes, hlength]) fun i hi hi' => ?_
  simp [Batch.outcomes, JobStage.outcome?]

/-- One job after the other, on any number of workers. -/
def sequential (plan : SchedulerPlan α) (work : Object α → Completion α) (κ : Type) {limit : Nat} (hlimit : 0 < limit) :
    Conduct plan work κ where
  limit
  finish := oneByOne plan work
  reached k s jobs := by
    obtain ⟨os, s', -, -, hfinish, hreaches⟩ := oneByOne_spec plan work hlimit k s jobs
    rw [hfinish]
    exact hreaches
  ends k s jobs := by
    obtain ⟨os, s', -, -, hfinish, -⟩ := oneByOne_spec plan work hlimit k s jobs
    rw [hfinish, Batch.isOver, List.all_eq_true]
    intro m hm
    obtain ⟨i, hi, rfl⟩ := List.mem_iff_getElem.1 hm
    simp [JobStage.isDone]

/-- This is how a scheduler goes through a batch by itself. -/
theorem sequential_evaluate {limit : Nat} (hlimit : 0 < limit) (e : Evaluation α) (id : String) (a : Assignment α) :
    (sequential plan work κ hlimit).evaluate e id a = e.run plan (Batch.answering κ work) id a := by
  have hbatch : ∀ jobs, (sequential plan work κ hlimit).batch jobs =
      Scheduler.runBatch plan (Batch.answering κ work) jobs := by
    intro jobs
    funext x
    obtain ⟨s, k⟩ := x
    obtain ⟨os, s', hrun, hlength, hfinish, -⟩ := oneByOne_spec plan work hlimit k s jobs
    have hsame : (sequential plan work κ hlimit).finish k s jobs = _ := hfinish
    unfold batch
    dsimp only
    rw [hsame, hrun, outcomes_done _ hlength, reduceOption_some]
  unfold evaluate Evaluation.run
  cases e.jobs a with
  | error f => rfl
  | ok jobs =>
    dsimp only
    rw [hbatch]

/-! ### Any order of steps -/

/-- An evaluation gives what the outcomes of its jobs make of it, whatever the scheduler served before, and
keeps sound results. -/
theorem evaluate_settled (hwork : Scheduler.Steady plan work) (d : Conduct plan work κ) (e : Evaluation α) (id : String)
    (a : Assignment α) {s : Scheduler α} (hs : Scheduler.Sound plan work s) (k : κ) :
    ((d.evaluate e id a).run (s, k)).1 = (do
      let jobs ← e.jobs a
      Evaluation.solution id a (jobs.map (Batch.settledOutcome plan work))) ∧
    Scheduler.Sound plan work ((d.evaluate e id a).run (s, k)).2.1 := by
  unfold evaluate
  cases e.jobs a with
  | error f => exact ⟨rfl, hs⟩
  | ok jobs =>
    obtain ⟨n, hrun⟩ := d.reached k s jobs
    obtain ⟨houtcomes, hsound⟩ := hrun.outcomes hwork hs (d.ends k s jobs)
    have hmap : jobs.map (fun j => some (Batch.settledOutcome plan work j)) =
        (jobs.map (Batch.settledOutcome plan work)).map some := by
      rw [List.map_map]
      rfl
    -- the outcomes come in the order of the jobs, in whatever order these were done
    have hbatch : (d.finish k s jobs).1.outcomes.reduceOption = jobs.map (Batch.settledOutcome plan work) := by
      rw [houtcomes, hmap, reduceOption_some]
    refine ⟨?_, hsound⟩
    show Evaluation.solution id a (d.finish k s jobs).1.outcomes.reduceOption = _
    rw [hbatch]
    rfl

end Conduct

/-! ## Venues -/

/-- Where a run takes place: how its batches are gone through, a clock, and a store. -/
structure Venue (plan : SchedulerPlan α) (work : Object α → Completion α) (κ : Type) extends Conduct plan work κ where
  now : StateM κ α
  storeConfig : Value α → StateM κ Unit
  storeSolution : Value α → StateM κ Unit
  storeCheckpoint : Value α → StateM κ Unit
  storeResult : Value α → StateM κ Unit

namespace Venue

/-- Something done beside the scheduler. -/
def beside {β : Type} (action : StateM κ β) : StateM (Scheduler α × κ) β := fun x =>
  ((action.run x.2).1, (x.1, (action.run x.2).2))

/-- The surroundings of a run at a venue; the run is stopped by one who sees its iterations, its best
solution and its frontier. -/
def surroundings (h : Venue plan work κ) (source : Option Int → Except (Fault α) σ) (windows : WindowPlan α)
    (stops : Nat → Option (Solution α) → List (Solution α) → Bool) : Surroundings (StateM (Scheduler α × κ)) σ α where
  source
  plan := windows
  evaluate := h.evaluate
  now := beside h.now
  hitRate := do pure (← get).1.hitRate
  active := do pure (← get).1.active
  fetchReported := fun x => (x.1.fetchReported.1, (x.1.fetchReported.2, x.2))
  storeConfig v := beside do h.storeConfig v; pure (.ok ())
  storeSolution v := beside do h.storeSolution v; pure (.ok ())
  storeCheckpoint v := beside do h.storeCheckpoint v; pure (.ok ())
  storeResult v := beside do h.storeResult v; pure (.ok ())
  follow p := if stops p.iteration p.best p.frontier then Optimizer.stop else pure ()

theorem surroundings_alike (hwork : Scheduler.Steady plan work) (h : Venue plan work κ) (h' : Venue plan work κ')
    (source : Option Int → Except (Fault α) σ) (windows : WindowPlan α)
    (stops : Nat → Option (Solution α) → List (Solution α) → Bool) :
    Surroundings.Alike (fun x x' => Scheduler.Sound plan work x.1 ∧ Scheduler.Sound plan work x'.1)
      (h.surroundings source windows stops) (h'.surroundings source windows stops) := by
  refine ⟨rfl, rfl, ?_, ?_, ?_, ?_, ?_, ?_, ?_, ?_, ?_, ?_⟩
  · rintro e id a ⟨s, k⟩ ⟨s', k'⟩ ⟨hs, hs'⟩
    obtain ⟨hresult, hsound⟩ := h.evaluate_settled hwork e id a hs k
    obtain ⟨hresult', hsound'⟩ := h'.evaluate_settled hwork e id a hs' k'
    exact ⟨hresult.trans hresult'.symm, hsound, hsound'⟩
  · exact fun _ _ hw => ⟨trivial, hw⟩
  · exact fun _ _ hw => ⟨trivial, hw⟩
  · exact fun _ _ hw => ⟨trivial, hw⟩
  · exact fun _ _ hw => ⟨trivial, hw⟩
  · exact fun _ _ _ hw => ⟨rfl, hw⟩
  · exact fun _ _ _ hw => ⟨rfl, hw⟩
  · exact fun _ _ _ _ hw => ⟨rfl, hw⟩
  · exact fun _ _ _ _ hw => ⟨rfl, hw⟩
  · intro p p' hp
    show Mirrors _ Eq (if stops p.iteration p.best p.frontier then _ else _)
      (if stops p'.iteration p'.best p'.frontier then _ else _)
    rw [hp.iteration, hp.best, hp.frontier]
    split
    · exact .modify fun o o' ho => ⟨by unfold Optimizer.stopped; rw [ho.status], rfl, ho.solutions, ho.iteration⟩
    · exact .pure rfl

end Venue

/-! ## Runs -/

namespace Optimizer

/-- An optimization does not depend on its scheduler. Let workers give one result to requests with one
fingerprint. From any two schedulers, whatever each served before, on any numbers of workers and in any
orders of steps, the runs of one strategy raise the same fault or end with the same solutions and the
same frontier, whatever their optimizers ran before, if both or neither are running now. -/
theorem optimize_settled [RandomSource σ α] (hwork : Scheduler.Steady plan work) (h : Venue plan work κ)
    (h' : Venue plan work κ') (source : Option Int → Except (Fault α) σ) (windows : WindowPlan α)
    (stops : Nat → Option (Solution α) → List (Solution α) → Bool) {s s' : Scheduler α} (hs : Batch.Served plan work s)
    (hs' : Batch.Served plan work s') (k : κ) (k' : κ') {o o' : Optimizer α}
    (hrunning : o.status = .running ↔ o'.status = .running) (blocks : List (Block α)) (c : SearchConfig α) :
    Agree Eq (fun r r' => r'.solutions = r.solutions ∧ r'.frontier = r.frontier ∧ r'.iterations = r.iterations ∧
        r'.status = r.status)
      (((optimize (h.surroundings source windows stops) blocks c).run.run o).run (s, k)).1.1
      (((optimize (h'.surroundings source windows stops) blocks c).run.run o').run (s', k')).1.1 := by
  have hanew := optimize_anew (h'.surroundings source windows stops) c blocks hrunning (s', k')
  have halike := h.surroundings_alike hwork h' source windows stops
  have hsame : o.Alike o := ⟨rfl, rfl, rfl, rfl⟩
  obtain ⟨hresult, -, -⟩ := optimize_mirrors halike c blocks o o (s, k) (s', k') hsame ⟨hs.sound hwork, hs'.sound hwork⟩
  -- so far for two runs of one optimizer
  change Agree _ _ _ (execute (optimize (h'.surroundings source windows stops) blocks c) o (s', k')).1.1 at hresult
  rw [hanew] at hresult
  refine hresult.mono (fun _ _ hf => hf) fun r r' hr => ?_
  exact ⟨hr.solutions.symm, hr.frontier.symm, hr.iterations.symm, hr.status.symm⟩

end Optimizer

/-! ## A strategy on a fresh scheduler and on one that knows it -/

namespace Venue

local instance openPartsOfVenues : ExactArithmetic := default

/-- A source that always draws zero. -/
local instance zeroSourceOfVenues : RandomSource Unit ℚ := ⟨fun s => (0, s), fun _ s => (0, s)⟩

/-- Some workers, and neither clock nor store. -/
def bare (work : Object ℚ → Completion ℚ) {limit : Nat} (hlimit : 0 < limit) : Venue .default work Unit :=
  { Conduct.sequential .default work Unit hlimit with
    now := pure 0, storeConfig := fun _ => pure (), storeSolution := fun _ => pure ()
    storeCheckpoint := fun _ => pure (), storeResult := fun _ => pure () }

/-- One evaluation. -/
def once : SearchConfig ℚ := Optimizer.searchFor .bayesian 1

/-- Its surroundings: nobody stops the run. -/
def calm (work : Object ℚ → Completion ℚ) {limit : Nat} (hlimit : 0 < limit) :
    Surroundings (StateM (Scheduler ℚ × Unit)) Unit ℚ :=
  (bare work hlimit).surroundings (fun _ => .ok ()) .default fun _ _ _ => false

/-- The end of a run for a token, from a scheduler. -/
def ending (work : Object ℚ → Completion ℚ) {limit : Nat} (hlimit : 0 < limit) (token : Value ℚ) (s : Scheduler ℚ) :
    Except (Fault ℚ) (SearchResult ℚ) :=
  (((Optimizer.optimize (calm work hlimit) (Batch.limitsFor token).blocks once).run.run Optimizer.idle).run (s, ())).1.1

/-- What is evaluated for a token, over one window. -/
def evaluation (token : Value ℚ) : Evaluation ℚ := ⟨(Batch.limitsFor token).blocks, once.run, [⟨0, 700000, 1000000⟩]⟩

/-- The jobs of the evaluation: training and test. -/
def halves (token : Value ℚ) : List (Job ℚ) :=
  [(0, 700000), (700000, 1000000)].map fun (start, stop) =>
    { Batch.limitsFor token with config := { once.run with start := .known start, stop := .known stop } }

theorem evaluation_ofPlan (token : Value ℚ) :
    Evaluation.ofPlan (Batch.limitsFor token).blocks once.run .default = .ok (evaluation token) := by
  have hwindows : (WindowPlan.default.windows once.run.start once.run.stop : Except (Fault ℚ) _).toOption.map id =
      some [⟨0, 700000, 1000000⟩] := by decide +kernel
  obtain ⟨windows, hplan, hwindow⟩ := ok_of_toOption hwindows
  unfold Evaluation.ofPlan
  rw [hplan]
  exact congrArg (fun windows => Except.ok (Evaluation.mk (Batch.limitsFor token).blocks once.run windows)) hwindow

theorem evaluation_jobs (token : Value ℚ) : (evaluation token).jobs [] = .ok (halves token) := rfl

theorem halves_writable {token : Value ℚ} (h : token.Plain) : ∀ j ∈ halves token, j.Writable := by
  intro j hj
  obtain ⟨⟨start, stop⟩, -, rfl⟩ := List.mem_map.1 hj
  exact ⟨(Batch.limitsFor_writable h).params, (Batch.limitsFor_writable h).parameters, .object nofun List.nodup_nil nofun,
    .null⟩

/-- The result that is kept for every job. -/
def kept : StoredReport ℚ := (default : Report ℚ).stored

/-- A scheduler that served the jobs of a token. -/
def knowing (work : Object ℚ → Completion ℚ) (token : Value ℚ) : Scheduler ℚ :=
  (Conduct.oneByOne .default work () Scheduler.empty (halves token)).1.scheduler

theorem knowing_served (work : Object ℚ → Completion ℚ) (token : Value ℚ) :
    Batch.Served .default work (knowing work token) := by
  obtain ⟨os, s', -, -, hfinish, n, hrun⟩ :=
    Conduct.oneByOne_spec .default work Nat.one_pos () Scheduler.empty (halves token)
  unfold knowing
  rw [hfinish]
  exact .batch (halves token) .nothing hrun

/-- Every job of a token has its result kept. -/
def Keeps (s : Scheduler ℚ) (token : Value ℚ) : Prop :=
  ∀ j ∈ halves token, ∃ key, Scheduler.fingerprint j = .ok key ∧ s.cache.lookup key = some kept

theorem knowing_keeps {work : Object ℚ → Completion ℚ} {token : Value ℚ} (htoken : token.Plain)
    (hanswer : ∀ j ∈ halves token, ∀ id,
      Scheduler.failureOf .default j.parameters (work (Scheduler.requestOf id j)) = .ok kept) :
    Keeps (knowing work token) token := by
  obtain ⟨os, s', hrun, -, hfinish, -⟩ :=
    Conduct.oneByOne_spec .default work Nat.one_pos () Scheduler.empty (halves token)
  obtain ⟨os', s'', hrun', -, hkeeps⟩ := Batch.runBatch_keeps .default work kept () (halves token) Scheduler.empty
    (fun j hj => ⟨⟨_, Scheduler.fingerprint_writable (halves_writable htoken j hj)⟩, hanswer j hj⟩) nofun
  rw [hrun] at hrun'
  obtain rfl : s' = s'' := congrArg (fun x => x.2.1) hrun'
  unfold knowing
  rw [hfinish]
  exact hkeeps

/-! ### A run that finds its results -/

/-- What kept results come to: a solution, the frontier of it while the run goes on and at its end. -/
structure Found (s : Solution ℚ) (marked again : List (Solution ℚ)) : Prop where
  solution : Evaluation.solution s!"solution-{0}" [] [.ok kept, .ok kept] = .ok s
  mark : Frontier.mark [s] once.objectives = .ok marked
  best : ∃ best, Progress.bestOf once.primary (Frontier.members marked) = .ok best
  last : Frontier.mark marked once.objectives = .ok again
  scored : again.map (·.isFailed) = [false]

theorem found_exists : ∃ s marked again, Found s marked again := by
  have hsolution : (Evaluation.solution s!"solution-{0}" [] [.ok kept, .ok kept]).toOption.map (fun s =>
      (Frontier.mark [s] once.objectives).toOption.map fun marked =>
        ((Progress.bestOf once.primary (Frontier.members marked)).toOption.isSome,
          (Frontier.mark marked once.objectives).toOption.map (·.map (·.isFailed)))) =
      some (some (true, some [false])) := by decide +kernel
  obtain ⟨s, hs, hmarked⟩ := ok_of_toOption hsolution
  obtain ⟨marked, hmark, hboth⟩ := ok_of_toOption hmarked
  obtain ⟨hbest, hlast⟩ := Prod.mk.inj hboth
  obtain ⟨again, hagain, hscored⟩ := ok_of_toOption hlast
  refine ⟨s, marked, again, hs, hmark, ?_, hagain, hscored⟩
  cases hfound : Progress.bestOf once.primary (Frontier.members marked) with
  | error e =>
    rw [hfound] at hbest
    cases hbest
  | ok best => exact ⟨best, rfl⟩

section

variable (work : Object ℚ → Completion ℚ) {limit : Nat} (hlimit : 0 < limit) {token : Value ℚ} {s : Scheduler ℚ}
  {solution : Solution ℚ} {marked again : List (Solution ℚ)}

theorem evaluate_kept (hkept : Keeps s token) (hfound : Found solution marked again) :
    ((calm work hlimit).evaluate (evaluation token) s!"solution-{(Optimizer.started (0 : ℚ)).solutions.length}" []
      (s, ())).1 = .ok solution := by
  obtain ⟨s', hbatch⟩ := Batch.runBatch_hits .default (Batch.answering Unit work) kept () (halves token) s hkept
  change ((Conduct.sequential .default work Unit hlimit).evaluate _ _ _ (s, ())).1 = _
  rw [Conduct.sequential_evaluate, Evaluation.run, evaluation_jobs]
  dsimp only
  rw [Batch.bind_run, hbatch]
  exact hfound.solution

theorem step_kept (hkept : Keeps s token) (hfound : Found solution marked again) :
    Ensures (Optimizer.step (calm work hlimit) (evaluation token) once []) (Optimizer.started 0) (s, ()) fun _ o _ =>
      o.iteration = 1 ∧ o.solutions = marked ∧ o.stopRequested = false := by
  obtain ⟨best, hbest⟩ := hfound.best
  unfold Optimizer.step Optimizer.solve Optimizer.progress
  refine .get_bind (.bind (Q := fun s o _ => s = solution ∧ o = Optimizer.started 0) (.outside_bind ?_) ?_)
  · have hevaluated : (StateT.run ((calm work hlimit).evaluate (evaluation token)
        s!"solution-{(Optimizer.started (0 : ℚ)).solutions.length}" []) (s, ())).1 = .ok solution :=
      evaluate_kept work hlimit hkept hfound
    rw [hevaluated]
    exact .pure ⟨rfl, rfl⟩
  · rintro _ _ w ⟨rfl, rfl⟩
    refine .modify_bind (.attempting_bind rfl (.bind (Q := fun _ o _ => o.iteration = 1 ∧ o.solutions = marked ∧
      o.stopRequested = false) ?_ fun p o w hp => ?_))
    · exact .get_bind (.reading_bind hfound.mark (.set_bind (.outside_bind (.reading_bind hbest (.outside_bind
        (.outside_bind (.pure ⟨rfl, rfl, rfl⟩)))))))
    · refine .outside_bind (.get_bind (.attempting_bind rfl ?_))
      exact .bind (.pure hp) fun _ _ _ ho => .pure ho

theorem search_kept (hkept : Keeps s token) (hfound : Found solution marked again) :
    Ensures (Optimizer.search (calm work hlimit) (evaluation token) once) (Optimizer.started 0) (s, ()) fun _ o _ =>
      o.solutions = marked := by
  unfold Optimizer.search Optimizer.searchAround
  refine .given_bind rfl (.given_bind rfl ?_)
  refine .bind (Q := fun _ o _ => o.iteration = 1 ∧ o.solutions = marked) ?_ fun r o w hsamples => ?_
  · change Ensures (Optimizer.evaluateSamples _ _ once [[]] _) _ _ _
    unfold Optimizer.evaluateSamples
    refine .get_bind ((step_kept work hlimit hkept hfound).bind fun _ _ _ ho => .pure ?_)
    exact ⟨ho.1, ho.2.1⟩
  · obtain ⟨hiteration, hdone⟩ := hsamples
    cases r with
    | none => exact .pure hdone
    | some search =>
      -- no budget is left for a suggestion
      have hspent : ¬ (o.iteration < once.maxIterations ∧ ¬ o.stopRequested = true) := by
        rw [hiteration]
        exact fun h => absurd h.1 (Nat.lt_irrefl 1)
      change Ensures (Optimizer.evaluateSuggestions _ _ _ 1 _ _) _ _ _
      unfold Optimizer.evaluateSuggestions
      refine .get_bind ?_
      rw [if_neg hspent]
      exact .pure hdone

/-- A run whose jobs have results that are kept comes to a solution. -/
theorem ending_kept (hstrategy : Optimizer.checkStrategy (Batch.limitsFor token).blocks = .ok ()) (hkept : Keeps s token) :
    ∃ r, ending work hlimit token s = .ok r ∧ r.solutions.map (·.isFailed) = [false] := by
  obtain ⟨solution, marked, again, hfound⟩ := found_exists
  have hrun : Ensures (Optimizer.optimize (calm work hlimit) (Batch.limitsFor token).blocks once) Optimizer.idle (s, ())
      fun r _ _ => r.solutions = again := by
    unfold Optimizer.optimize Optimizer.begin
    refine .bind (Q := fun e o w => e = evaluation token ∧ o = Optimizer.started 0 ∧ w = (s, ())) ?_ fun e o w hbegun => ?_
    · refine .get_bind (.given_bind hstrategy (.given_bind (evaluation_ofPlan token) (.outside_bind (.set_bind ?_))))
      exact .attempting_bind rfl (.pure ⟨rfl, rfl, rfl⟩)
    obtain ⟨rfl, rfl, rfl⟩ := hbegun
    refine (search_kept work hlimit hkept hfound).caught.bind fun _ o w hsolutions => ?_
    unfold Optimizer.finish
    refine .modify_bind (.get_bind (.reading_bind (b := again) ?_ (.set_bind (.outside_bind (.outside_bind
      (.attempting_bind rfl (.pure rfl)))))))
    split
    · exact hsolutions ▸ hfound.last
    · exact hsolutions ▸ hfound.last
  obtain ⟨r, o, w, hok, hr⟩ := hrun
  refine ⟨r, ?_, ?_⟩
  · unfold ending
    rw [hok]
  · rw [hr, hfound.scored]

end

/-! ### The strategy known, and a strategy taken for it -/

/-- A strategy whose results are all kept already is evaluated as one that is new, on twice the workers. -/
theorem kept_strategy_alike :
    let work : Object ℚ → Completion ℚ := Batch.lookingUp fun _ => some default
    let warm := knowing work (.text "ETH")
    Scheduler.Steady .default work ∧ Batch.Served .default work Scheduler.empty ∧ Batch.Served .default work warm ∧
      ∃ r r', ending work Nat.one_pos (.text "ETH") .empty = .ok r ∧ ending work Nat.two_pos (.text "ETH") warm = .ok r' ∧
        r.solutions.map (·.isFailed) = [false] ∧ r'.solutions = r.solutions ∧ r'.frontier = r.frontier ∧
        r'.iterations = r.iterations ∧ r'.status = r.status := by
  intro work warm
  have hwork : Scheduler.Steady .default work := Batch.lookingUp_steady .default _
  have hwarm : Batch.Served .default work warm := knowing_served work _
  have hagree := Optimizer.optimize_settled hwork (bare work Nat.one_pos) (bare work Nat.two_pos) (fun _ => .ok ())
    .default (fun _ _ _ => false) .nothing hwarm () () (.refl (Optimizer.idle.status = .running)) (Batch.limitsFor (.text "ETH")).blocks once
  change Agree Eq _ (ending work Nat.one_pos (.text "ETH") .empty) (ending work Nat.two_pos (.text "ETH") warm) at hagree
  have hstrategy : (Optimizer.checkStrategy (Batch.limitsFor (.text "ETH" : Value ℚ)).blocks).toOption.map id = some () := by
    decide +kernel
  obtain ⟨_, hvalid, -⟩ := ok_of_toOption hstrategy
  have hkept : Keeps (knowing work (.text "ETH")) (.text "ETH") := by
    refine knowing_keeps (.text _) fun j hj id => ?_
    have hkey := Scheduler.fingerprint_writable (halves_writable (.text "ETH") j hj)
    change Scheduler.failureOf .default j.parameters (Batch.lookingUp _ (Scheduler.requestOf id j)) = _
    rw [Batch.lookingUp_requestOf, hkey]
    rfl
  obtain ⟨r', hr', hscored⟩ := ending_kept work Nat.two_pos hvalid hkept
  rw [hr'] at hagree
  generalize hcold : ending work Nat.one_pos (.text "ETH") .empty = cold at hagree
  cases hagree with
  | ok hsame =>
    obtain ⟨hsolutions, hrest⟩ := hsame
    exact ⟨hwork, .nothing, hwarm, _, r', rfl, hr', hsolutions ▸ hscored, hsolutions, hrest⟩

theorem halves_fingerprints (items : List (Value ℚ)) (hitems : ∀ v ∈ items, v.Plain) :
    (halves (.list items)).map Scheduler.fingerprint = (halves (.tuple items)).map Scheduler.fingerprint := by
  have hwritten : ∀ token : Value ℚ, token.Plain → (halves token).map Scheduler.fingerprint =
      (halves token).map fun j => .ok (String.ofList (Json.written j.toValue)) := fun token htoken =>
    List.map_congr_left fun j hj => Scheduler.fingerprint_writable (halves_writable htoken j hj)
  rw [hwritten _ (.list hitems), hwritten _ (.tuple hitems)]
  rfl

/-- A strategy for a list of tokens is refused by a worker that wants a fixed sequence of them, unless the
scheduler served the strategy for the sequence before. -/
theorem list_answered_as_tuple :
    let work : Object ℚ → Completion ℚ := Batch.sequencesOnly
    let warm := knowing work (.tuple [.text "ETH"])
    (∀ request, Scheduler.staysActive (work request) = false) ∧
      (∀ id j, Scheduler.failureOf .default j.parameters (work (Scheduler.requestOf id j)) =
        Scheduler.answerTo .default work j) ∧
      Batch.Served .default work Scheduler.empty ∧ Batch.Served .default work warm ∧
      ∃ r r', ending work Nat.one_pos (.list [.text "ETH"]) .empty = .ok r ∧
        ending work Nat.one_pos (.list [.text "ETH"]) warm = .ok r' ∧
        r.solutions.map (·.isFailed) = [true] ∧ r'.solutions.map (·.isFailed) = [false] := by
  intro work warm
  have hplain : ∀ v ∈ [(Value.text "ETH" : Value ℚ)], v.Plain := fun v hv => by
    rw [List.mem_singleton.1 hv]
    exact .text _
  have hcold : (ending work Nat.one_pos (.list [.text "ETH"]) .empty).toOption.map (·.solutions.map (·.isFailed)) =
      some [true] := by
    decide +kernel
  have hstrategy : (Optimizer.checkStrategy (Batch.limitsFor (.list [.text "ETH"] : Value ℚ)).blocks).toOption.map id =
      some () := by
    decide +kernel
  obtain ⟨r, hr, hfailed⟩ := ok_of_toOption hcold
  obtain ⟨_, hvalid, -⟩ := ok_of_toOption hstrategy
  have hknown : Keeps (knowing work (.tuple [.text "ETH"])) (.tuple [.text "ETH"]) := by
    refine knowing_keeps (.tuple hplain) fun j hj id => ?_
    obtain ⟨_, -, rfl⟩ := List.mem_map.1 hj
    rfl
  -- the jobs for the list have the fingerprints of those for the sequence
  have hkept : Keeps warm (.list [.text "ETH"]) := by
    intro j hj
    have hmem := List.mem_map_of_mem (f := Scheduler.fingerprint) hj
    rw [halves_fingerprints _ hplain] at hmem
    obtain ⟨j', hj', hsame⟩ := List.mem_map.1 hmem
    rw [← hsame]
    exact hknown j' hj'
  obtain ⟨r', hr', hscored⟩ := ending_kept work Nat.one_pos hvalid hkept
  refine ⟨fun request => ?_, fun id j => rfl, .nothing, knowing_served work _, r, r', hr, hr', hfailed, hscored⟩
  show Scheduler.staysActive (Batch.sequencesOnly request) = false
  unfold Batch.sequencesOnly
  split <;> rfl

end Venue

end StrategyLab
