/-
Runs that are followed to the end. A `Script` stands for all that a run depends on: the verdict on
every assignment, the clock, the store, and whoever is told the progress and may ask the run to stop.
Each of these may depend on everything that happened before. `Log` records the verdicts and what was
told.

`Course` is the invariant of a run: one solution for each verdict in order, one progress for each
solution with the frontier of the solutions so far, and a stop that is asked for ends the run.
`step_ensures` is the step that keeps it.
-/
import StrategyLab.Proofs.Optimization.Frontier
import StrategyLab.Proofs.Optimization.Stage
import StrategyLab.Proofs.Search.Generation

namespace StrategyLab

/-! ## Scripts -/

/-- What an evaluation gives: scores in sample and out of sample, or the reason why all windows failed. -/
inductive Verdict (α : Type) where
  | scored (inside outside : List (String × α)) (degradation : α) (windowsFailed : Int)
  | failed (candidate reason : String)

/-- What a run depends on, as computations on a state. -/
structure Script (τ σ α : Type) where
  source : Option Int → Except (Fault α) σ
  plan : WindowPlan α
  judge : Evaluation α → String → Assignment α → StateM τ (Verdict α)
  /-- Whether the run is asked to stop, by one who sees the progress and the optimizer. -/
  asks : Progress α → Optimizer α → StateM τ Bool
  now : StateM τ α
  hitRate : StateM τ α
  active : StateM τ Int
  fetchReported : StateM τ (List (Failure α))
  storeConfig : Value α → StateM τ Unit
  storeSolution : Value α → StateM τ Unit
  storeCheckpoint : Value α → StateM τ Unit
  storeResult : Value α → StateM τ Unit

/-- The state of a script, and what has happened: the verdicts, and every progress told with whether
the run was then asked to stop. -/
structure Log (τ α : Type) where
  inner : τ
  verdicts : List (Assignment α × Verdict α)
  told : List (Progress α × Bool)

variable {τ σ α : Type}

namespace Verdict

variable [Scalar α]

/-- Scores by name. -/
def fields (scores : List (String × α)) : Object α := scores.map fun x => (.text x.1, .real x.2)

/-- The solution for a verdict. -/
def solution (v : Verdict α) (id : String) (a : Assignment α) (windows : Nat) : Solution α :=
  match v with
  | scored inside outside degradation windowsFailed =>
    { id, assignment := a, inside := fields inside, outside := fields outside, degradation, isOptimal := false
      error := none, windowsFailed }
  | failed candidate reason => .ofFailure id a (Fault.allWindowsFailed candidate reason : Fault α).message windows

/-- The answer of an evaluation with a verdict. -/
def answer (v : Verdict α) (id : String) (a : Assignment α) : Except (Fault α) (Solution α) :=
  match v with
  | failed candidate reason => .error (.allWindowsFailed candidate reason)
  | v => .ok (v.solution id a 0)

end Verdict

namespace Log

/-- Nothing has happened. -/
def start (inner : τ) : Log τ α := { inner, verdicts := [], told := [] }

/-- The solutions for the verdicts. -/
def outcomes [Scalar α] (w : Log τ α) (windows : Nat) : List (Solution α) :=
  w.verdicts.mapIdx fun i x => x.2.solution s!"solution-{i}" x.1 windows

/-- The first iteration at which the run was asked to stop. -/
def firstStop (w : Log τ α) : ℕ∞ :=
  match w.told.findIdx? (·.2) with
  | some i => (i + 1 : ℕ)
  | none => ⊤

/-- The same has happened. -/
def Same (w w' : Log τ α) : Prop := w'.verdicts = w.verdicts ∧ w'.told = w.told

theorem Same.trans {u v w : Log τ α} (h : u.Same v) (h' : v.Same w) : u.Same w :=
  ⟨h'.1.trans h.1, h'.2.trans h.2⟩

/-- A computation on the inner state. -/
def within {β : Type} (action : StateM τ β) : StateM (Log τ α) β := fun w =>
  ((action.run w.inner).1, { w with inner := (action.run w.inner).2 })

/-- A computation on the inner state that stands for a store. -/
def keeping (action : StateM τ Unit) : StateM (Log τ α) (Except (Fault α) Unit) :=
  within do
    action
    pure (.ok ())

theorem keeping_ok (action : StateM τ Unit) (w : Log τ α) : ((keeping action).run w).1 = .ok () := rfl

theorem keeping_same (action : StateM τ Unit) (w : Log τ α) : w.Same ((keeping action).run w).2 := ⟨rfl, rfl⟩

end Log

namespace Script

variable [Scalar α]

/-- Evaluates with the verdict of the script, and records it. -/
def evaluate (script : Script τ σ α) (e : Evaluation α) (id : String) (a : Assignment α) :
    StateM (Log τ α) (Except (Fault α) (Solution α)) := fun w =>
  let (v, inner) := (script.judge e id a).run w.inner
  (v.answer id a, { w with inner, verdicts := w.verdicts ++ [(a, v)] })

/-- Tells progress, and records it with the answer. -/
def tell (script : Script τ σ α) (p : Progress α) (o : Optimizer α) : StateM (Log τ α) Bool := fun w =>
  let (asked, inner) := (script.asks p o).run w.inner
  (asked, { w with inner, told := w.told ++ [(p, asked)] })

/-- The surroundings of a run by a script; the run is stopped when the script asks for it. -/
def surroundings (script : Script τ σ α) : Surroundings (StateM (Log τ α)) σ α :=
  { source := script.source
    plan := script.plan
    evaluate := script.evaluate
    now := Log.within script.now
    hitRate := Log.within script.hitRate
    active := Log.within script.active
    fetchReported := Log.within script.fetchReported
    storeConfig := fun v => Log.keeping (script.storeConfig v)
    storeSolution := fun v => Log.keeping (script.storeSolution v)
    storeCheckpoint := fun v => Log.keeping (script.storeCheckpoint v)
    storeResult := fun v => Log.keeping (script.storeResult v)
    follow := fun p => do
      let o ← get
      let asked ← Optimizer.outside (script.tell p o)
      if asked then Optimizer.stop }

end Script

/-! ## Outcomes -/

section Outcomes

variable [Scalar α]

omit [Scalar α] in
theorem Verdict.fields_numeric (scores : List (String × α)) : (Verdict.fields scores).Numeric := by
  intro f hf
  obtain ⟨x, -, rfl⟩ := List.mem_map.1 hf
  exact .inr ⟨x.2, rfl⟩

theorem Verdict.solution_numeric (v : Verdict α) (id : String) (a : Assignment α) (windows : Nat) :
    (v.solution id a windows).scores.Numeric := by
  unfold Solution.scores
  cases v with
  | scored inside outside degradation windowsFailed =>
    split
    · exact fields_numeric inside
    · exact fields_numeric outside
  | failed candidate reason => exact nofun

theorem Verdict.solution_unmarked (v : Verdict α) (id : String) (a : Assignment α) (windows : Nat) :
    (v.solution id a windows).marked false = v.solution id a windows := by
  cases v <;> rfl

theorem Object.Numeric.readable {s : Solution α} (h : s.scores.Numeric) (objectives : List String) :
    s.Readable objectives := by
  intro name _
  unfold Solution.finiteScore
  cases hfound : Object.get? s.scores name with
  | none => exact ⟨none, rfl⟩
  | some v =>
    rcases h _ (Object.mem_of_get? hfound) with hv | ⟨x, hv⟩
    · obtain rfl : v = .null := hv
      exact ⟨none, rfl⟩
    · obtain rfl : v = .real x := hv
      exact ⟨_, rfl⟩

namespace Log

variable (w : Log τ α) (windows : Nat)

@[simp] theorem length_outcomes : (w.outcomes windows).length = w.verdicts.length := List.length_mapIdx

theorem outcomes_numeric : ∀ s ∈ w.outcomes windows, s.scores.Numeric := by
  intro s hs
  obtain ⟨i, hi, rfl⟩ := List.mem_mapIdx.1 hs
  exact Verdict.solution_numeric _ _ _ _

theorem outcomes_same {w' : Log τ α} (h : w.Same w') : w'.outcomes windows = w.outcomes windows := by
  unfold outcomes
  rw [h.1]

theorem outcomes_unmarked : (w.outcomes windows).map (·.marked false) = w.outcomes windows := by
  have hplain : ∀ s ∈ w.outcomes windows, s.marked false = s := by
    intro s hs
    obtain ⟨i, hi, rfl⟩ := List.mem_mapIdx.1 hs
    exact Verdict.solution_unmarked _ _ _ _
  rw [List.map_congr_left hplain, List.map_id']

end Log

end Outcomes

/-! ## One evaluation -/

namespace Optimizer

open Stage

variable [Scalar α] {script : Script τ σ α} {e : Evaluation α} {c : SearchConfig α} {o : Optimizer α} {w : Log τ α}

theorem solve_ensures (id : String) (a : Assignment α) :
    Ensures (solve script.surroundings e id a) o w fun s o' w' => o' = o ∧ w'.told = w.told ∧
      ∃ v, w'.verdicts = w.verdicts ++ [(a, v)] ∧ s = v.solution id a e.windows.length := by
  unfold solve
  refine .outside_bind ?_
  have hrun : (script.surroundings.evaluate e id a).run w = (((script.judge e id a).run w.inner).1.answer id a,
      { w with
        inner := ((script.judge e id a).run w.inner).2
        verdicts := w.verdicts ++ [(a, ((script.judge e id a).run w.inner).1)] }) := rfl
  rw [hrun]
  cases hv : ((script.judge e id a).run w.inner).1 with
  | scored inside outside degradation windowsFailed => exact .pure ⟨rfl, rfl, _, rfl, rfl⟩
  | failed candidate reason => exact .pure ⟨rfl, rfl, _, rfl, rfl⟩

/-- The frontier that is told is that of the solutions without their earlier marks. -/
theorem mark_outcomes {windows : Nat} (h : o.solutions.map (·.marked false) = w.outcomes windows)
    (objectives : List String) : ∃ found, Frontier.mark o.solutions objectives = .ok found ∧
      found.map (·.marked false) = w.outcomes windows ∧ (∀ s ∈ found, s.scores.Numeric) ∧
      Frontier.extract (w.outcomes windows) objectives = .ok (Frontier.members found) := by
  have hreadable : ∀ s ∈ w.outcomes windows, s.isFailed = false → s.Readable objectives :=
    fun s hs _ => (w.outcomes_numeric windows s hs).readable objectives
  obtain ⟨found, hmark, hnumeric⟩ : ∃ found, Frontier.mark (w.outcomes windows) objectives = .ok found ∧
      ∀ s ∈ found, s.scores.Numeric := by
    refine ⟨_, Frontier.mark_eq _ hreadable, fun s hs => ?_⟩
    obtain ⟨x, hx, rfl⟩ := List.mem_map.1 hs
    exact w.outcomes_numeric windows x.1 (List.fst_mem_of_mem_zipIdx hx)
  refine ⟨found, ?_, ?_, hnumeric, ?_⟩
  · rw [← Frontier.mark_unmarked, h, hmark]
  · rw [Frontier.unmarked_mark hmark, Log.outcomes_unmarked]
  · unfold Frontier.extract
    rw [hmark]
    rfl

/-- Telling the progress changes nothing of an optimizer but the marks of its solutions. -/
theorem progress_ensures {windows : Nat} (h : o.solutions.map (·.marked false) = w.outcomes windows) :
    Ensures (progress script.surroundings c) o w fun p o' w' => w.Same w' ∧ p.iteration = o.iteration ∧
      Frontier.extract (w.outcomes windows) c.objectives = .ok p.frontier ∧
      o'.solutions.map (·.marked false) = w.outcomes windows ∧ o'.iteration = o.iteration ∧
      o'.stopRequested = o.stopRequested ∧ o'.status = o.status := by
  obtain ⟨found, hmark, hplain, hnumeric, hextract⟩ := mark_outcomes h c.objectives
  obtain ⟨best, hbest, -⟩ := Progress.bestOf_ok fun s hs => (hnumeric s (List.mem_of_mem_filter hs)).oriented c.primary
  unfold progress
  refine .get_bind (.reading_bind hmark (.set_bind (.outside_bind (.reading_bind hbest (.outside_bind (.outside_bind
    (.pure ⟨?_, rfl, hextract, hplain, rfl, rfl, rfl⟩)))))))
  exact ⟨rfl, rfl⟩

/-- What follows a run may stop it, and does nothing else to it. -/
theorem follow_ensures (p : Progress α) : Ensures (script.surroundings.follow p) o w fun _ o' w' =>
    ∃ asked, w'.verdicts = w.verdicts ∧ w'.told = w.told ++ [(p, asked)] ∧ o'.solutions = o.solutions ∧
      o'.iteration = o.iteration ∧ o'.stopRequested = (asked || o.stopRequested) ∧
      o'.status = if asked ∧ o.status = .running then .stopped else o.status := by
  refine .get_bind (.outside_bind ?_)
  change Ensures (if ((script.asks p o).run w.inner).1 then Optimizer.stop else pure ⟨⟩) o
    { w with
      inner := ((script.asks p o).run w.inner).2
      told := w.told ++ [(p, ((script.asks p o).run w.inner).1)] } _
  cases hasked : ((script.asks p o).run w.inner).1 with
  | true =>
    refine ⟨⟨⟩, o.stopped, _, rfl, true, rfl, rfl, rfl, rfl, rfl, ?_⟩
    simp [Optimizer.stopped]
  | false => exact .pure ⟨false, rfl, rfl, rfl, rfl, rfl, by simp⟩

end Optimizer

end StrategyLab
