/-
The budget of a run. A run evaluates until its budget is spent or whoever follows it asks it to stop,
and whatever the verdicts are it ends without a fault (`optimize_keeps_budget`). The follower may be
anyone who does nothing to the optimizer but to stop it. One who stops a run and begins another one on
the same optimizer makes the first one go on: a run that was stopped but has not ended is no obstacle
to another run, which takes the stop back (`nested_run_passes_stop`).
-/
import StrategyLab.Proofs.Optimization.Loops
import StrategyLab.Search.Twister
import Mathlib.Data.ENat.Basic

namespace StrategyLab

open Stage

variable {τ σ α : Type}

/-! ## The first stop -/

/-- A run that ends at the first stop it is asked for, or with its budget spent. -/
theorem Log.firstStop_eq {w : Log τ α} (hquiet : ∀ p ∈ w.told.dropLast, p.2 = false) :
    w.firstStop = if w.told.any (·.2) then (w.told.length : ℕ∞) else ⊤ := by
  unfold Log.firstStop
  rcases List.eq_nil_or_concat w.told with hnil | ⟨before, p, htold⟩
  · rw [hnil]
    rfl
  · rw [List.concat_eq_append] at htold
    rw [htold, List.dropLast_concat] at hquiet
    have hbefore : before.findIdx? (·.2) = none := by
      rw [List.findIdx?_eq_none_iff]
      exact hquiet
    have hnone : before.any (·.2) = false := by
      rw [List.any_eq_false]
      intro q hq
      simp [hquiet q hq]
    rw [htold, List.findIdx?_append, hbefore, List.any_append, hnone]
    cases hp : p.2 with
    | true => simp [hp, List.findIdx?_cons]
    | false => simp [hp, List.findIdx?_cons]

variable [Scalar α]

/-! ## What is left of a run -/

theorem Verdict.solution_id (v : Verdict α) (id : String) (a : Assignment α) (windows : Nat) :
    (v.solution id a windows).id = id := by
  cases v <;> rfl

namespace Log

theorem outcomes_ids (w : Log τ α) (windows : Nat) :
    (w.outcomes windows).map (·.id) = (List.range w.verdicts.length).map fun i => s!"solution-{i}" := by
  refine List.ext_getElem (by simp) fun i hi hi' => ?_
  rw [List.getElem_map, List.getElem_map, List.getElem_range]
  unfold outcomes
  rw [List.getElem_mapIdx]
  exact Verdict.solution_id _ _ _ _

/-- The solution of a failed evaluation. -/
theorem outcomes_failed {w : Log τ α} {i : Nat} {a : Assignment α} {candidate reason : String}
    (h : w.verdicts[i]? = some (a, .failed candidate reason)) (windows : Nat) :
    ∃ s, (w.outcomes windows)[i]? = some s ∧ s.assignment = a ∧ s.isFailed = true ∧
      s.degradation = Solution.failedDegradation := by
  unfold outcomes
  rw [List.getElem?_mapIdx, h]
  exact ⟨_, rfl, rfl, rfl, rfl⟩

end Log

theorem Frontier.alive_of_numeric {objectives : List String} {solutions frontier : List (Solution α)}
    (hnumeric : ∀ s ∈ solutions, s.scores.Numeric) (h : Frontier.extract solutions objectives = .ok frontier) :
    ∀ s ∈ frontier, s.isFailed = false := by
  unfold Frontier.extract at h
  cases hmark : Frontier.mark solutions objectives with
  | error e =>
    rw [hmark] at h
    cases h
  | ok found =>
    rw [hmark] at h
    cases h
    exact Frontier.members_alive hmark fun s hs _ => (hnumeric s hs).readable objectives

namespace Course

variable {objectives : List String} {windows : Nat} {o : Optimizer α} {w : Log τ α}

theorem iterations (h : Course objectives windows o w) :
    w.told.map (·.1.iteration) = (List.range o.iteration).map (· + 1) := by
  have hlength : w.told.length = o.iteration := h.count.trans h.iteration.symm
  refine List.ext_getElem (by simp [hlength]) fun i hi hi' => ?_
  rw [List.length_map] at hi
  rw [List.getElem_map, List.getElem_map, List.getElem_range]
  exact (h.told i _ (List.getElem?_eq_getElem hi)).1

theorem frontiers_alive (h : Course objectives windows o w) :
    ∀ p ∈ w.told, ∀ s ∈ p.1.frontier, s.isFailed = false := by
  intro p hp
  obtain ⟨i, hi, rfl⟩ := List.getElem_of_mem hp
  refine Frontier.alive_of_numeric (fun s hs => ?_) (h.told i _ (List.getElem?_eq_getElem hi)).2
  exact w.outcomes_numeric windows s (List.mem_of_mem_take hs)

end Course

namespace Optimizer

variable {script : Script τ σ α} {e : Evaluation α} {c : SearchConfig α} {o : Optimizer α} {w : Log τ α}

theorem Ended.count {windows : Nat} (h : Ended c windows o w) :
    (o.iteration : ℕ∞) = min (c.maxIterations : ℕ∞) w.firstStop := by
  have hlength : w.told.length = o.iteration := h.course.count.trans h.course.iteration.symm
  have hle : (o.iteration : ℕ∞) ≤ c.maxIterations := by exact_mod_cast h.within
  rw [Log.firstStop_eq h.course.quiet, ← h.course.asked, hlength]
  cases hstop : o.stopRequested with
  | true => rw [if_pos rfl, min_eq_right hle]
  | false =>
    have hspent : o.iteration = c.maxIterations := h.ending.resolve_right (by rw [hstop]; decide)
    rw [if_neg (by decide), min_eq_left le_top, hspent]

theorem Ended.stopped_iff {windows : Nat} (h : Ended c windows o w) :
    o.stopRequested = true ↔ w.firstStop ≤ (c.maxIterations : ℕ∞) := by
  have hlength : w.told.length = o.iteration := h.course.count.trans h.course.iteration.symm
  rw [Log.firstStop_eq h.course.quiet, ← h.course.asked, hlength]
  cases o.stopRequested with
  | true =>
    rw [if_pos rfl]
    simp only [true_iff]
    exact_mod_cast h.within
  | false => simp

/-! ## A whole run -/

theorem begin_ensures {blocks : List (Block α)} {inner : τ} (hidle : o.status ≠ .running)
    (hstrategy : checkStrategy blocks = .ok ()) (hwindows : Evaluation.ofPlan blocks c.run script.plan = .ok e) :
    Ensures (begin script.surroundings blocks c) o (Log.start inner) fun e' o' w' =>
      e' = e ∧ Course c.objectives e.windows.length o' w' ∧ o'.iteration = 0 := by
  unfold begin
  refine .get_bind ?_
  rw [if_neg hidle]
  refine .given_bind hstrategy (.given_bind hwindows (.outside_bind (.set_bind ?_)))
  refine .attempting_bind (Log.keeping_ok _ _) (.pure ⟨rfl, ?_, rfl⟩)
  exact (Course.started _ _).same ⟨rfl, rfl⟩

theorem finish_ensures {windows : Nat} (h : Ended c windows o w) :
    Ensures (finish script.surroundings c) o w fun r _ w' => w.Same w' ∧ r.iterations = o.iteration ∧
      r.solutions.map (·.marked false) = w.outcomes windows ∧
      Frontier.extract (w.outcomes windows) c.objectives = .ok r.frontier ∧
      r.status = if o.stopRequested then .stopped else .completed := by
  obtain ⟨found, hmark, hplain, -, hextract⟩ := mark_outcomes h.course.solutions c.objectives
  have hfinal : ∀ o' : Optimizer α, o' = (if o.status = .running then { o with status := .completed } else o) →
      o'.solutions = o.solutions ∧ o'.iteration = o.iteration ∧
        o'.status = if o.stopRequested then .stopped else .completed := by
    rintro o' rfl
    rw [h.course.status]
    cases hstop : o.stopRequested with
    | true => simp [h.course.status, hstop]
    | false => exact ⟨rfl, rfl, rfl⟩
  unfold finish
  refine .modify_bind (.get_bind ?_)
  obtain ⟨hsolutions, hiteration, hstatus⟩ := hfinal _ rfl
  rw [hsolutions]
  refine .reading_bind hmark (.set_bind (.outside_bind (.outside_bind (.attempting_bind (Log.keeping_ok _ _) ?_))))
  exact .pure ⟨⟨rfl, rfl⟩, hiteration, hplain, hextract, hstatus⟩

/-- A run of either algorithm over a valid strategy, whatever the verdicts and whenever a stop is asked
for. It has as many evaluations as the budget allows, or fewer if it is asked to stop before; its
solutions are numbered in the order of their evaluation; each progress is told once, with the frontier of
the solutions so far; and an assignment that could not be evaluated has a failed solution that is on no
frontier. -/
theorem optimize_keeps_budget [RandomSource σ α] (hbounded : RandomSource.Bounded σ α) (inner : τ)
    {blocks : List (Block α)} {source : σ} (hidle : o.status ≠ .running) (hstrategy : checkStrategy blocks = .ok ())
    (hwindows : Evaluation.ofPlan blocks c.run script.plan = .ok e) (hobjectives : c.objectives ≠ [])
    (hsize : 2 ≤ c.populationSize) (hsource : script.source c.seed = .ok source) :
    ∃ (r : SearchResult α) (o' : Optimizer α) (w' : Log τ α),
      ((optimize script.surroundings blocks c).run.run o).run (Log.start inner) = ((.ok r, o'), w') ∧
      (r.iterations : ℕ∞) = min (c.maxIterations : ℕ∞) w'.firstStop ∧
      r.status = (if w'.firstStop ≤ (c.maxIterations : ℕ∞) then .stopped else .completed) ∧
      w'.verdicts.length = r.iterations ∧
      r.solutions.map (·.marked false) = w'.outcomes e.windows.length ∧
      r.solutions.map (·.id) = (List.range r.iterations).map (fun i => s!"solution-{i}") ∧
      Frontier.extract (w'.outcomes e.windows.length) c.objectives = .ok r.frontier ∧
      w'.told.map (·.1.iteration) = (List.range r.iterations).map (· + 1) ∧
      (∀ (i : Nat) p, w'.told[i]? = some p →
        Frontier.extract ((w'.outcomes e.windows.length).take (i + 1)) c.objectives = .ok p.1.frontier) ∧
      (∀ (i : Nat) a candidate reason, w'.verdicts[i]? = some (a, .failed candidate reason) →
        ∃ s : Solution α, r.solutions[i]? = some s ∧ s.assignment = a ∧ s.isFailed = true ∧
          s.degradation = Solution.failedDegradation) ∧
      (∀ p ∈ w'.told, ∀ s ∈ p.1.frontier, s.isFailed = false) ∧ ∀ s ∈ r.frontier, s.isFailed = false := by
  have hrun : Ensures (optimize script.surroundings blocks c) o (Log.start inner) fun r _ w' =>
      ∃ o₁ w₁, Ended c e.windows.length o₁ w₁ ∧ w₁.Same w' ∧ r.iterations = o₁.iteration ∧
        r.solutions.map (·.marked false) = w₁.outcomes e.windows.length ∧
        Frontier.extract (w₁.outcomes e.windows.length) c.objectives = .ok r.frontier ∧
        r.status = if o₁.stopRequested then .stopped else .completed := by
    unfold optimize
    refine (begin_ensures hidle hstrategy hwindows).bind fun e' o₀ w₀ hbegun => ?_
    obtain ⟨rfl, hcourse, hzero⟩ := hbegun
    refine (search_ensures hbounded hcourse hzero hobjectives hsize hsource).caught.bind fun _ o₁ w₁ hended => ?_
    exact (finish_ensures hended).mono fun r _ w' hr => ⟨o₁, w₁, hended, hr⟩
  obtain ⟨r, o', w', hok, o₁, w₁, hended, hsame, hiterations, hsolutions, hfrontier, hstatus⟩ := hrun
  -- nothing is evaluated or told after the search
  have hcourse := hended.course.same hsame
  have hended' : Ended c e.windows.length o₁ w' := ⟨hcourse, hended.within, hended.ending⟩
  rw [← Log.outcomes_same w₁ _ hsame] at hsolutions hfrontier
  refine ⟨r, o', w', hok, ?_, ?_, ?_, hsolutions, ?_, hfrontier, ?_, fun i p hp => (hcourse.told i p hp).2,
    fun i a candidate reason hi => ?_, hcourse.frontiers_alive,
    Frontier.alive_of_numeric (w'.outcomes_numeric _) hfrontier⟩
  · rw [hiterations, hended'.count]
  · rw [hstatus]
    exact if_congr hended'.stopped_iff rfl rfl
  · rw [hiterations, hcourse.iteration]
  · have hids : (r.solutions.map (·.marked false)).map (·.id) = r.solutions.map (·.id) := by
      rw [List.map_map]
      rfl
    rw [← hids, hsolutions, Log.outcomes_ids, hiterations, hcourse.iteration]
  · rw [hiterations, hcourse.iterations]
  · obtain ⟨s, hs, ha, hfailed, hdegradation⟩ := Log.outcomes_failed hi e.windows.length
    rw [← hsolutions, List.getElem?_map, Option.map_eq_some_iff] at hs
    obtain ⟨t, ht, rfl⟩ := hs
    exact ⟨t, ht, ha, hfailed, hdegradation⟩

/-! ## Two runs of at most five and of at most two evaluations -/

local instance openPartsOfBudgets : ExactArithmetic := default

/-- A source that always draws zero. -/
local instance zeroSource : RandomSource Unit ℚ := ⟨fun s => (0, s), fun _ s => (0, s)⟩

-- the first assignment cannot be evaluated
def firstFails (asks : Progress ℚ → Bool) : Script Unit Unit ℚ :=
  { source := fun _ => .ok ()
    plan := .default
    judge := fun _ id _ => pure (if id = "solution-0" then .failed id "refused" else .scored [("sharpe_ratio", 1)] [] 0 0)
    asks := fun p _ => pure (asks p)
    now := pure 0, hitRate := pure 0, active := pure 0, fetchReported := pure []
    storeConfig := fun _ => pure (), storeSolution := fun _ => pure (), storeCheckpoint := fun _ => pure ()
    storeResult := fun _ => pure () }

def swapped : List (Block ℚ) :=
  [{ id := "s", kind := "uniswap_swap", category := .protocol, label := "",
      params := [(.text "input_token", .text "USDC"), (.text "output_token", .text "ETH"),
        (.text "amount", .num (.real 10))] }]

def searchFor (algorithm : Algorithm) (maxIterations : Nat) : SearchConfig ℚ :=
  { parameters := [], objectives := ["sharpe_ratio"], algorithm, maxIterations, populationSize := 4, seed := none
    run :=
      { start := .known 0, stop := .known 1000000, capital := .real 1000, interval := .whole 1, baseCurrency := "USDC"
        holdings := [], granularity := .null } }

/-- A run that is asked to stop within its first generation of four. -/
theorem stopped_within_generation :
    let script := firstFails fun p => p.iteration = 3
    let c := searchFor .genetic 5
    RandomSource.Bounded Unit ℚ ∧ checkStrategy swapped = .ok () ∧
      (∃ e, Evaluation.ofPlan swapped c.run script.plan = .ok e) ∧
      ∃ (r : SearchResult ℚ) (o' : Optimizer ℚ) (w' : Log Unit ℚ),
        ((optimize script.surroundings swapped c).run.run idle).run (Log.start ()) = ((.ok r, o'), w') ∧
        r.iterations = 3 ∧ r.status = .stopped ∧ r.solutions.map (·.id) = ["solution-0", "solution-1", "solution-2"] := by
  intro script c
  have hbounded : RandomSource.Bounded Unit ℚ := fun n _ hn => hn
  have hstrategy : checkStrategy swapped = .ok () := by
    have hvalid : (checkStrategy swapped).toOption = some () := by decide +kernel
    cases hcheck : checkStrategy swapped with
    | error f =>
      rw [hcheck] at hvalid
      cases hvalid
    | ok u => rfl
  obtain ⟨e, hwindows⟩ : ∃ e, Evaluation.ofPlan swapped c.run script.plan = .ok e := ⟨_, rfl⟩
  obtain ⟨r, o', w', hok, -, -, -, -, hids, -⟩ :=
    optimize_keeps_budget (o := idle) hbounded () (by decide) hstrategy hwindows (by decide) (by decide)
      (show script.source c.seed = .ok () from rfl)
  have hends : (((optimize script.surroundings swapped c).run.run idle).run (Log.start ())).1.1.toOption.map
      (fun r => (r.iterations, r.status)) = some (3, .stopped) := by decide +kernel
  rw [hok] at hends
  obtain ⟨hcount, hstatus⟩ := Prod.mk.inj (Option.some.inj hends)
  refine ⟨hbounded, hstrategy, ⟨e, hwindows⟩, r, o', w', hok, hcount, hstatus, ?_⟩
  rw [hids, hcount]
  decide

/-- Surroundings in which the run is asked to stop after its first evaluation, and another run is begun. -/
def restarting : Surroundings (StateM (Log Unit ℚ)) Unit ℚ :=
  let script := firstFails fun p => p.iteration = 1
  { script.surroundings with
    follow := fun p => do
      script.surroundings.follow p
      if p.iteration = 1 then
        let _ ← optimize { script.surroundings with follow := fun _ => pure () } swapped (searchFor .bayesian 2) }

/-- The run goes on after the stop, and past its budget. -/
theorem nested_run_passes_stop :
    ∃ (r : SearchResult ℚ) (o' : Optimizer ℚ) (w' : Log Unit ℚ),
      ((optimize restarting swapped (searchFor .bayesian 2)).run.run idle).run (Log.start ()) = ((.ok r, o'), w') ∧
      w'.firstStop = 1 ∧ r.iterations = 3 ∧ r.status = .completed ∧ w'.told.map (·.1.iteration) = [1, 3] := by
  have hends : (((optimize restarting swapped (searchFor .bayesian 2)).run.run idle).run (Log.start ())).1.1.toOption.map
      (fun r => (r.iterations, r.status)) = some (3, .completed) := by decide +kernel
  have htold : ((((optimize restarting swapped (searchFor .bayesian 2)).run.run idle).run (Log.start ())).2.told.map
      fun p => (p.1.iteration, p.2)) = [(1, true), (3, false)] := by decide +kernel
  generalize ((optimize restarting swapped (searchFor .bayesian 2)).run.run idle).run (Log.start ()) = ending at *
  obtain ⟨⟨answer, o'⟩, w'⟩ := ending
  cases answer with
  | error f => cases hends
  | ok r =>
    obtain ⟨hcount, hstatus⟩ := Prod.mk.inj (Option.some.inj hends)
    refine ⟨r, o', w', rfl, ?_, hcount, hstatus, ?_⟩
    · have hasked : w'.told.map (·.2) = [true, false] := by
        have := congrArg (List.map Prod.snd) htold
        rwa [List.map_map] at this
      unfold Log.firstStop
      rw [show w'.told.findIdx? (·.2) = (w'.told.map (·.2)).findIdx? id by rw [List.findIdx?_map]; rfl, hasked]
      rfl
    · have := congrArg (List.map Prod.fst) htold
      rwa [List.map_map] at this

end Optimizer

end StrategyLab
