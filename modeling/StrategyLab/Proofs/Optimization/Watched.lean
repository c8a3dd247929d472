/-
Runs that are watched. Whoever watches a run may stop it after an iteration, or let it go on; a stop
changes nothing of the evaluation that is told (`step_stoppedAt`), and a run that goes on only adds to
the solutions and to the chronicle (`Grows`).
-/
import StrategyLab.Proofs.Optimization.Chronicle
import StrategyLab.Proofs.Optimization.Invariant

namespace StrategyLab

open Stage Chronicle

variable {ω σ α β γ : Type}

/-! ## Watching and stopping -/

namespace Surroundings

/-- Surroundings in which a run is watched, and goes on. -/
def watched (S : Surroundings (StateM ω) σ α) (watch : Progress α → StateM ω (Except (Fault α) Unit)) :
    Surroundings (StateM ω) σ α :=
  { S with follow := fun p => Optimizer.attempting (watch p) }

/-- Surroundings in which a run is watched, and stopped after an iteration. -/
def stoppedAt (S : Surroundings (StateM ω) σ α) (watch : Progress α → StateM ω (Except (Fault α) Unit)) (k : Nat) :
    Surroundings (StateM ω) σ α :=
  { S with
    follow := fun p => do
      Optimizer.attempting (watch p)
      if p.iteration = k then Optimizer.stop else pure () }

end Surroundings

/-- The candidate that is evaluated. -/
def RunEvent.evaluated? : RunEvent σ α → Option (Assignment α)
  | .drawn _ _ => none
  | .evaluated a => some a

/-- The candidates that were evaluated. -/
def Chronicle.evaluations (w : Chronicle ω σ α) : List (Assignment α) := w.events.filterMap RunEvent.evaluated?

/-- The solutions of an optimizer but for the marks of the best. -/
def Optimizer.unmarked (o : Optimizer α) : List (Solution α) := o.solutions.map (·.marked false)

theorem Optimizer.length_unmarked (o : Optimizer α) : o.unmarked.length = o.solutions.length := List.length_map _

/-! ## What a run adds -/

/-- A run has come from one point to another. -/
structure Later (o : Optimizer α) (w : Chronicle ω σ α) (o' : Optimizer α) (w' : Chronicle ω σ α) : Prop where
  solutions : o.unmarked <+: o'.unmarked
  iteration : o.iteration ≤ o'.iteration
  events : w.events <+: w'.events

namespace Later

variable {o o' o'' : Optimizer α} {w w' w'' : Chronicle ω σ α}

theorem refl (o : Optimizer α) (w : Chronicle ω σ α) : Later o w o w :=
  ⟨List.prefix_rfl, Nat.le_refl _, List.prefix_rfl⟩

theorem of_stopped (o : Optimizer α) (w : Chronicle ω σ α) : Later o.stopped w o w :=
  ⟨List.prefix_rfl, Nat.le_refl _, List.prefix_rfl⟩

theorem trans (h : Later o w o' w') (h' : Later o' w' o'' w'') : Later o w o'' w'' :=
  ⟨h.solutions.trans h'.solutions, h.iteration.trans h'.iteration, h.events.trans h'.events⟩

end Later

namespace Stage

/-- A stage only adds to what a run has done, whether or not it fails. -/
def Grows (x : Stage (StateM (Chronicle ω σ α)) α β) : Prop :=
  ∀ o w, Leads x o w (fun _ o' w' => Later o w o' w') fun _ o' w' => Later o w o' w'

theorem Grows.pure (b : β) : Grows (pure b : Stage (StateM (Chronicle ω σ α)) α β) := fun o w => Later.refl o w

theorem Grows.bind {x : Stage (StateM (Chronicle ω σ α)) α β} {f : β → Stage (StateM (Chronicle ω σ α)) α γ}
    (hx : Grows x) (hf : ∀ b, Grows (f b)) : Grows (x >>= f) := by
  intro o w
  refine (hx o w).bind fun b o' w' h => ?_
  exact (hf b o' w').mono (fun _ _ _ => h.trans) fun _ _ _ => h.trans

theorem Grows.get_bind {f : Optimizer α → Stage (StateM (Chronicle ω σ α)) α γ} (hf : ∀ o, Grows (f o)) :
    Grows (get >>= f) := fun o w => .get_bind (hf o o w)

theorem Grows.note_bind {event : RunEvent σ α} {f : PUnit → Stage (StateM (Chronicle ω σ α)) α γ} (hf : Grows (f ⟨⟩)) :
    Grows (note event >>= f) := by
  intro o w
  have hnoted : Later o w o { w with events := w.events ++ [event] } :=
    ⟨List.prefix_rfl, Nat.le_refl _, List.prefix_append _ _⟩
  exact .outside_bind ((hf o _).mono (fun _ _ _ => hnoted.trans) fun _ _ _ => hnoted.trans)

theorem Grows.given_bind {r : Except (Fault α) β} {f : β → Stage (StateM (Chronicle ω σ α)) α γ} (hf : ∀ b, Grows (f b)) :
    Grows (Optimizer.given r >>= f) := fun o w => .given_bind (fun _ _ => .refl o w) fun b _ => hf b o w

theorem Leads.lift {x : Stage (StateM ω) α β} {o : Optimizer α} {w : Chronicle ω σ α}
    {Q : β → Optimizer α → Chronicle ω σ α → Prop} {E : Fault α → Optimizer α → Chronicle ω σ α → Prop}
    (h : Leads x o w.world (fun b o' w' => Q b o' { w with world := w' }) fun f o' w' => E f o' { w with world := w' }) :
    Leads (Chronicle.lift x) o w Q E := by
  unfold Leads at h ⊢
  rw [execute_lift]
  generalize execute x o w.world = p at h ⊢
  obtain ⟨⟨r, o'⟩, w'⟩ := p
  cases r <;> exact h

theorem Grows.reading_bind {r : Except (ValueFault α) β} {f : β → Stage (StateM (Chronicle ω σ α)) α γ}
    (hf : ∀ b, Grows (f b)) : Grows (Optimizer.reading r >>= f) := fun o w => .reading_bind (fun _ _ => .refl o w) fun b _ => hf b o w

end Stage

/-! ## One evaluation -/

namespace Optimizer

variable [Scalar α] (S : Surroundings (StateM ω) σ α) (e : Evaluation α) (c : SearchConfig α)

/-- One evaluation up to the point where its progress is told. -/
def told (a : Assignment α) : Stage (StateM ω) α (Solution α × Progress α) := do
  let before ← get
  let s ← solve S e s!"solution-{before.solutions.length}" a
  modify fun o => { o with solutions := o.solutions ++ [s], iteration := o.iteration + 1 }
  attempting (S.storeSolution s.toValue)
  let p ← progress S c
  let hitRate ← outside S.hitRate
  let after ← get
  attempting (S.storeCheckpoint (p.checkpoint after.status hitRate))
  pure (s, p)

theorem step_eq (a : Assignment α) :
    step S e c a = told S e c a >>= fun x => S.follow x.2 >>= fun _ => pure x.1 := by
  unfold step told
  simp only [bind_assoc, pure_bind]

/-- An optimizer that has evaluated one more candidate. -/
structure Evaluated (objectives : List String) (o o' : Optimizer α) : Prop where
  iteration : o'.iteration = o.iteration + 1
  stopRequested : o'.stopRequested = o.stopRequested
  status : o'.status = o.status
  solutions : ∃ s, o'.unmarked = o.unmarked ++ [s]
  ranked : ∃ found, Frontier.mark o'.solutions objectives = .ok found

/-- An optimizer that has perhaps not done so. -/
def Interrupted (o o' : Optimizer α) : Prop := o.unmarked <+: o'.unmarked ∧ o.iteration ≤ o'.iteration

theorem told_leads (a : Assignment α) (o : Optimizer α) (w : ω) :
    Leads (told S e c a) o w (fun x o' _ => Evaluated c.objectives o o' ∧ x.2.iteration = o'.iteration)
      fun _ o' _ => o.Interrupted o' := by
  unfold told
  have hsame : o.Interrupted o := ⟨List.prefix_rfl, Nat.le_refl _⟩
  -- what the run does to its surroundings does not matter here
  have hanywhere : ∀ (_ : ω), True → True := fun _ _ => trivial
  refine .get_bind (((solve_leads S e (K := fun _ => True) _ a o (w := w) trivial).mono (fun _ _ _ h => h) ?_).bind ?_)
  · rintro - o' - ⟨rfl, -⟩
    exact hsame
  rintro s o' w' ⟨rfl, -⟩
  -- whatever fails from here on, the solution is there
  have hadded : ∀ found : List (Solution α), found.map (·.marked false) = (o'.solutions ++ [s]).map (·.marked false) →
      found.map (·.marked false) = o'.unmarked ++ [s.marked false] := fun found h => by rw [h, List.map_append]; rfl
  have hlater : ∀ o₁ : Optimizer α, o₁.unmarked = (o'.solutions ++ [s]).map (·.marked false) →
      o₁.iteration = o'.iteration + 1 → o'.Interrupted o₁ := by
    intro o₁ hsolutions hiteration
    refine ⟨?_, by omega⟩
    unfold unmarked at hsolutions ⊢
    rw [hadded _ hsolutions]
    exact List.prefix_append _ _
  refine .modify_bind (.attempting_bind (fun _ _ _ => hlater _ rfl rfl) fun _ w₁ _ => ?_)
  refine ((progress_leads S c hanywhere hanywhere hanywhere _ (w := w₁) trivial).mono (fun _ _ _ h => h) ?_).bind ?_
  · rintro - o₁ - ⟨⟨found, hsolutions, rfl⟩, -⟩
    exact hlater _ hsolutions rfl
  rintro p _ w₂ ⟨⟨found, ⟨hfound, hp, -, -⟩, rfl⟩, -⟩
  have hfound' := Frontier.unmarked_mark hfound
  refine .outside_bind (.get_bind (.attempting_bind (fun _ _ _ => hlater _ hfound' rfl) fun _ _ _ => .pure ⟨?_, hp⟩))
  refine ⟨rfl, rfl, rfl, ⟨_, hadded _ hfound'⟩, found, ?_⟩
  -- marks that were made before do not matter
  rw [← Frontier.mark_unmarked, hfound', Frontier.mark_unmarked, hfound]

variable (watch : Progress α → StateM ω (Except (Fault α) Unit))

theorem Evaluated.interrupted {objectives : List String} {o o' : Optimizer α} (h : Evaluated objectives o o') :
    o.Interrupted o' := by
  obtain ⟨s, hs⟩ := h.solutions
  refine ⟨?_, by rw [h.iteration]; omega⟩
  rw [hs]
  exact List.prefix_append _ _

theorem step_leads (a : Assignment α) (o : Optimizer α) (w : ω) :
    Leads (step (S.watched watch) e c a) o w (fun _ o' _ => Evaluated c.objectives o o') fun _ o' _ =>
      o.Interrupted o' := by
  rw [step_eq]
  refine (told_leads S e c a o w).bind ?_
  rintro ⟨s, p⟩ o' w' ⟨hevaluated, -⟩
  exact .attempting_bind (fun _ _ _ => hevaluated.interrupted) fun _ _ _ => .pure hevaluated

/-- A stop changes nothing of an evaluation, but that the run is then stopped. -/
theorem step_stoppedAt (k : Nat) (a : Assignment α) (o : Optimizer α) (w : ω) :
    execute (step (S.stoppedAt watch k) e c a) o w =
      match execute (step (S.watched watch) e c a) o w with
      | ((.ok s, o'), w') => ((.ok s, if o'.iteration = k then o'.stopped else o'), w')
      | ((.error f, o'), w') => ((.error f, o'), w') := by
  have htold := told_leads S e c a o w
  have hsame : told (S.stoppedAt watch k) e c a = told S e c a := rfl
  have hsame' : told (S.watched watch) e c a = told S e c a := rfl
  unfold Leads at htold
  rw [step_eq, step_eq, execute_bind, execute_bind, hsame, hsame']
  -- up to what the watcher is told the two evaluations are one
  generalize execute (told S e c a) o w = p at htold ⊢
  obtain ⟨⟨r, o'⟩, w'⟩ := p
  cases r with
  | error f => rfl
  | ok x =>
    -- it is told the iteration of the optimizer, so that it stops the run there
    obtain ⟨-, hiteration⟩ := htold
    have hfollow : (S.stoppedAt watch k).follow x.2 = attempting (watch x.2) >>= fun _ =>
      if x.2.iteration = k then stop else pure () := rfl
    have hfollow' : (S.watched watch).follow x.2 = attempting (watch x.2) := rfl
    dsimp only
    rw [hfollow, hfollow', bind_assoc, execute_bind, execute_bind, execute_attempting, hiteration]
    rcases (watch x.2).run w' with ⟨r, w₁⟩
    cases r with
    | error f => rfl
    | ok u =>
      change _ = ((Except.ok x.1, if o'.iteration = k then o'.stopped else o'), w₁)
      by_cases hat : o'.iteration = k
      · rw [if_pos hat]
        dsimp only
        rw [if_pos hat]
        rfl
      · rw [if_neg hat]
        dsimp only
        rw [if_neg hat]
        rfl

end Optimizer

/-! ## What a run that goes on adds -/

namespace Traced

variable [Scalar α] (S : Surroundings (StateM ω) σ α) (e : Evaluation α) (c : SearchConfig α)
  (watch : Progress α → StateM ω (Except (Fault α) Unit))

theorem step_grows (a : Assignment α) : Grows (step (S.watched watch) e c a) := by
  refine .note_bind fun o w => .lift ((Optimizer.step_leads S e c watch a o w.world).mono ?_ ?_)
  · rintro _ o' w' h
    exact ⟨h.interrupted.1, h.interrupted.2, List.prefix_rfl⟩
  · rintro - o' w' ⟨hsolutions, hiteration⟩
    exact ⟨hsolutions, hiteration, List.prefix_rfl⟩

theorem evaluateSamples_grows (rest : List (Assignment α)) (search : BayesianSearch α) :
    Grows (evaluateSamples (S.watched watch) e c rest search) := by
  induction rest generalizing search with
  | nil => exact .pure _
  | cons a rest ih =>
    unfold evaluateSamples
    refine .get_bind fun o => ?_
    split
    · exact .pure _
    · exact (step_grows S e c watch a).bind fun s => ih _

theorem evaluateMembers_grows (position : Nat) (rest : List (Assignment α)) (search : GeneticSearch α) :
    Grows (evaluateMembers (S.watched watch) e c position rest search) := by
  induction rest generalizing position search with
  | nil => exact .pure _
  | cons a rest ih =>
    unfold evaluateMembers
    refine .get_bind fun o => ?_
    split
    · exact .pure _
    · exact (step_grows S e c watch a).bind fun s => .reading_bind fun fitness => .reading_bind fun updated => ih _ _

variable [RandomSource σ α]

theorem evaluateSuggestions_grows (left : Nat) (search : BayesianSearch α) (source : σ) :
    Grows (evaluateSuggestions (S.watched watch) e c left search source) := by
  induction left generalizing search source with
  | zero => exact .pure _
  | succ left ih =>
    unfold evaluateSuggestions
    refine .get_bind fun o => ?_
    split
    · exact .note_bind (.given_bind fun a => (step_grows S e c watch a).bind fun s => ih _ _)
    · exact .pure _

theorem evaluateGenerations_grows (left : Nat) (search : GeneticSearch α) (source : σ) :
    Grows (evaluateGenerations (S.watched watch) e c left search source) := by
  induction left generalizing search source with
  | zero => exact .pure _
  | succ left ih =>
    unfold evaluateGenerations
    refine .get_bind fun o => ?_
    split
    · refine (evaluateMembers_grows S e c watch 0 _ search).bind fun r => ?_
      cases r with
      | none => exact .pure _
      | some evaluated => exact .note_bind (.given_bind fun next => ih _ _)
    · exact .pure _

end Traced

end StrategyLab
