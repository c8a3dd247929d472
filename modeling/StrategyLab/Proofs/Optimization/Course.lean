/-
The course of a run. After any evaluation there is one solution for each verdict, in order; for each
of them one progress was told, with the frontier of the solutions so far; and no stop was asked for
before the last one (`Course`). `step_ensures` is one evaluation; both searches only ever evaluate as
long as there is budget left and no stop was asked for, and they end with the budget spent or the run
stopped (`Ended`), because a search always has something to propose.
-/
import StrategyLab.Proofs.Optimization.Script

namespace StrategyLab

open Stage

variable {τ σ α : Type} [Scalar α]

/-! ## The invariant -/

/-- What holds of an optimizer and the log between two evaluations. -/
structure Course (objectives : List String) (windows : Nat) (o : Optimizer α) (w : Log τ α) : Prop where
  solutions : o.solutions.map (·.marked false) = w.outcomes windows
  iteration : o.iteration = w.verdicts.length
  count : w.told.length = w.verdicts.length
  told : ∀ i p, w.told[i]? = some p → p.1.iteration = i + 1 ∧
    Frontier.extract ((w.outcomes windows).take (i + 1)) objectives = .ok p.1.frontier
  asked : o.stopRequested = w.told.any (·.2)
  quiet : ∀ p ∈ w.told.dropLast, p.2 = false
  status : o.status = if o.stopRequested then .stopped else .running

namespace Course

variable {objectives : List String} {windows : Nat} {o : Optimizer α} {w : Log τ α}

theorem started (time : α) (inner : τ) : Course objectives windows (Optimizer.started time) (Log.start inner) :=
  ⟨rfl, rfl, rfl, nofun, rfl, nofun, rfl⟩

theorem same {w' : Log τ α} (h : Course objectives windows o w) (hw : w.Same w') : Course objectives windows o w' := by
  obtain ⟨hverdicts, htold⟩ := hw
  refine ⟨?_, ?_, ?_, ?_, ?_, ?_, h.status⟩
  · rw [Log.outcomes_same w windows ⟨hverdicts, htold⟩, h.solutions]
  · rw [h.iteration, hverdicts]
  · rw [htold, hverdicts, h.count]
  · rw [htold, Log.outcomes_same w windows ⟨hverdicts, htold⟩]
    exact h.told
  · rw [h.asked, htold]
  · rw [htold]
    exact h.quiet

/-- As long as no stop was asked for, nobody who was told asked for one. -/
theorem silent (h : Course objectives windows o w) (hgoes : o.stopRequested = false) : ∀ p ∈ w.told, p.2 = false := by
  have hnone : w.told.any (·.2) = false := h.asked.symm.trans hgoes
  simpa using hnone

end Course

theorem Log.outcomes_append {w w' : Log τ α} {a : Assignment α} {v : Verdict α} (windows : Nat)
    (h : w'.verdicts = w.verdicts ++ [(a, v)]) :
    w'.outcomes windows = w.outcomes windows ++ [v.solution s!"solution-{w.verdicts.length}" a windows] := by
  unfold Log.outcomes
  rw [h, List.mapIdx_append]
  simp

/-- One more verdict, and one more progress. -/
theorem Course.step {objectives : List String} {windows : Nat} {o o' : Optimizer α} {w w' : Log τ α}
    (h : Course objectives windows o w) (hgoes : o.stopRequested = false) {a : Assignment α} {v : Verdict α}
    {p : Progress α} {asked : Bool} (hverdicts : w'.verdicts = w.verdicts ++ [(a, v)])
    (htold : w'.told = w.told ++ [(p, asked)]) (hp : p.iteration = o.iteration + 1)
    (hfrontier : Frontier.extract (w'.outcomes windows) objectives = .ok p.frontier)
    (hsolutions : o'.solutions.map (·.marked false) = w'.outcomes windows) (hiteration : o'.iteration = o.iteration + 1)
    (hstop : o'.stopRequested = asked) (hstatus : o'.status = if asked then .stopped else .running) :
    Course objectives windows o' w' := by
  have hlength : w.told.length = o.iteration := h.count.trans h.iteration.symm
  have houtcomes := Log.outcomes_append windows hverdicts
  refine ⟨hsolutions, ?_, ?_, fun i q hq => ?_, ?_, ?_, ?_⟩
  · rw [hiteration, hverdicts, List.length_append, h.iteration, List.length_singleton]
  · rw [htold, hverdicts, List.length_append, List.length_append, h.count, List.length_singleton,
      List.length_singleton]
  · -- what was told before is as it was, and the new progress is of all solutions
    rw [htold] at hq
    rcases Nat.lt_or_ge i w.told.length with hi | hi
    · rw [List.getElem?_append_left hi] at hq
      rw [houtcomes, List.take_append_of_le_length (by rw [w.length_outcomes, ← h.count]; exact hi)]
      exact h.told i q hq
    · rw [List.getElem?_append_right hi] at hq
      obtain ⟨hi', rfl⟩ : i - w.told.length = 0 ∧ (p, asked) = q := by
        rcases hk : i - w.told.length with _ | k
        · rw [hk] at hq
          exact ⟨rfl, Option.some.inj hq⟩
        · rw [hk] at hq
          cases hq
      refine ⟨by rw [hp]; omega, ?_⟩
      rw [List.take_of_length_le, hfrontier]
      rw [Log.length_outcomes, hverdicts, List.length_append, List.length_singleton, ← h.count]
      omega
  · rw [hstop, htold, List.any_append, ← h.asked, hgoes]
    simp
  · rw [htold, List.dropLast_concat]
    exact h.silent hgoes
  · rw [hstop, hstatus]

namespace Optimizer

variable {script : Script τ σ α} {e : Evaluation α} {c : SearchConfig α} {o : Optimizer α} {w : Log τ α}

/-- One evaluation of a run that goes on: one more solution and one more progress, told with the frontier
of all solutions, and the run goes on unless it is then asked to stop. -/
theorem step_ensures (hc : Course c.objectives e.windows.length o w) (hgoes : o.stopRequested = false)
    (a : Assignment α) : Ensures (step script.surroundings e c a) o w fun s o' w' =>
      Course c.objectives e.windows.length o' w' ∧ o'.iteration = o.iteration + 1 ∧ s.scores.Numeric := by
  have hlength : o.solutions.length = w.verdicts.length := by
    rw [← w.length_outcomes e.windows.length, ← hc.solutions, List.length_map]
  have hrunning : o.status = .running := by
    rw [hc.status, hgoes]
    rfl
  unfold step
  refine .get_bind ((solve_ensures _ a).bind fun s o₁ w₁ hsolved => ?_)
  obtain ⟨ho₁, htold, v, hverdicts, hs⟩ := hsolved
  rw [hlength] at hs
  refine .modify_bind (.attempting_bind (Log.keeping_ok _ _) ?_)
  generalize hw₂ : ((script.surroundings.storeSolution s.toValue).run w₁).2 = w₂
  have hkept : w₁.Same w₂ := hw₂ ▸ Log.keeping_same _ _
  have houtcomes : w₂.outcomes e.windows.length = w.outcomes e.windows.length ++ [s] := by
    rw [Log.outcomes_same w₁ _ hkept, Log.outcomes_append _ hverdicts, hs]
  have hmarks : (o₁.solutions ++ [s]).map (·.marked false) = w₂.outcomes e.windows.length := by
    rw [houtcomes, ho₁, List.map_append, hc.solutions, hs]
    exact congrArg _ (congrArg (· :: []) (Verdict.solution_unmarked _ _ _ _))
  refine (progress_ensures hmarks).bind fun p o₂ w₃ hprogress => ?_
  obtain ⟨hsame, hp, hfrontier, hsolutions, hiteration, hstop, hstatus⟩ := hprogress
  refine .outside_bind (.get_bind (.attempting_bind (Log.keeping_ok _ _) ?_))
  refine (follow_ensures p).bind fun _ o₃ w₄ hfollowed => .pure ?_
  obtain ⟨asked, hverdicts', htold', hsolutions', hiteration', hstop', hstatus'⟩ := hfollowed
  have hverdicts₄ : w₄.verdicts = w.verdicts ++ [(a, v)] :=
    hverdicts'.trans (hsame.1.trans (hkept.1.trans hverdicts))
  have htold₄ : w₄.told = w.told ++ [(p, asked)] :=
    htold'.trans (congrArg (· ++ [(p, asked)]) (hsame.2.trans (hkept.2.trans htold)))
  have houtcomes₄ : w₄.outcomes e.windows.length = w₂.outcomes e.windows.length := by
    rw [houtcomes, Log.outcomes_append _ hverdicts₄, hs]
  have hcount : o₃.iteration = o.iteration + 1 := by
    rw [hiteration', hiteration, ho₁]
  refine ⟨hc.step hgoes hverdicts₄ htold₄ (by rw [hp, ho₁]) (by rw [houtcomes₄, hfrontier])
    (by rw [houtcomes₄, hsolutions', hsolutions]) hcount ?_ ?_, hcount, ?_⟩
  · rw [hstop', hstop, ho₁, hgoes, Bool.or_false]
  · rw [hstatus', hstatus, ho₁, hrunning]
    cases asked <;> rfl
  · rw [hs]
    exact Verdict.solution_numeric _ _ _ _

end Optimizer

end StrategyLab
