/-
Two runs side by side, of which one is stopped after an iteration. They are level (`Level`) until the
stop is asked for, and from there to the end of what is under way: a generation whose last member was
evaluated is still followed by the draw of the next one. Then the run that is stopped leaves its search,
and the other one only adds to what both have done (`Standing`). Both searches keep this up
(`Traced.search_abreast`).
-/
import StrategyLab.Proofs.Optimization.Watched

namespace StrategyLab

open Stage Chronicle

variable {ω σ α β γ : Type}

/-! ## Level runs -/

/-- A run that is under way. -/
structure Optimizer.Underway (o : Optimizer α) (w : Chronicle ω σ α) : Prop where
  status : o.status = .running
  goes : o.stopRequested = false
  length : o.solutions.length = o.iteration
  counted : w.evaluations.length = o.iteration

/-- A draw is no evaluation. -/
theorem Optimizer.Underway.drawn {o : Optimizer α} {w : Chronicle ω σ α} (h : o.Underway w)
    (candidates : Except (Fault α) (List (Assignment α))) (next : σ) :
    o.Underway { w with events := w.events ++ [.drawn candidates next] } := by
  refine ⟨h.status, h.goes, h.length, ?_⟩
  rw [← h.counted]
  unfold Chronicle.evaluations
  rw [List.filterMap_append]
  simp [RunEvent.evaluated?]

variable [Scalar α]

/-- A run that was stopped after an iteration. -/
structure Optimizer.Halted (k : Nat) (objectives : List String) (o : Optimizer α) (w : Chronicle ω σ α) : Prop where
  status : o.status = .stopped
  iteration : o.iteration = k
  length : o.solutions.length = k
  counted : w.evaluations.length = k
  ranked : ∃ found, Frontier.mark o.solutions objectives = .ok found

/-- The run that goes on and the one that is stopped are at the same point: before the iteration of the stop,
or after it and within the search. -/
inductive Level (k : Nat) (objectives : List String) (o : Optimizer α) (w : Chronicle ω σ α) : Optimizer α → Prop
  | before (hgoes : o.Underway w) (hlt : o.iteration < k) : Level k objectives o w o
  | reached (hgoes : o.Underway w) (hat : o.iteration = k)
      (hranked : ∃ found, Frontier.mark o.solutions objectives = .ok found) : Level k objectives o w o.stopped

theorem Optimizer.Underway.halted {k : Nat} {objectives : List String} {o : Optimizer α} {w : Chronicle ω σ α}
    (hgoes : o.Underway w) (hat : o.iteration = k)
    (hranked : ∃ found, Frontier.mark o.solutions objectives = .ok found) : o.stopped.Halted k objectives w := by
  refine ⟨?_, hat, hgoes.length.trans hat, hgoes.counted.trans hat, hranked⟩
  unfold Optimizer.stopped
  rw [hgoes.status]
  rfl

/-- How two runs stand to each other after a stage: they are level, they have failed alike, or the one that is
stopped has left the search, with a result that says so, and the other one has only added to what it did. -/
inductive Standing (k : Nat) (objectives : List String) (leaves : β → Prop) :
    (Except (Fault α) β × Optimizer α) × Chronicle ω σ α → (Except (Fault α) β × Optimizer α) × Chronicle ω σ α → Prop
  | level {b : β} {o o' : Optimizer α} {w : Chronicle ω σ α} (h : Level k objectives o w o') :
      Standing k objectives leaves ((.ok b, o), w) ((.ok b, o'), w)
  | failed (f : Fault α) (o o' : Optimizer α) (w : Chronicle ω σ α) :
      Standing k objectives leaves ((.error f, o), w) ((.error f, o'), w)
  | apart {r : Except (Fault α) β} {b : β} {o o' : Optimizer α} {w w' : Chronicle ω σ α} (hleaves : leaves b)
      (hhalted : o'.Halted k objectives w') (hlater : Later o' w' o w) :
      Standing k objectives leaves ((r, o), w) ((.ok b, o'), w')

section

variable {k : Nat} {objectives : List String}

/-- What the other run adds after the one that is stopped has left. -/
theorem Standing.left {leaves : β → Prop} {x : Stage (StateM (Chronicle ω σ α)) α β} (hx : Grows x) {b : β}
    (hleaves : leaves b) {o o' : Optimizer α} {w w' : Chronicle ω σ α} (hhalted : o'.Halted k objectives w')
    (hlater : Later o' w' o w) : Standing k objectives leaves (execute x o w) ((.ok b, o'), w') := by
  have hadds := hx o w
  unfold Leads at hadds
  generalize execute x o w = p at hadds ⊢
  obtain ⟨⟨r, o₁⟩, w₁⟩ := p
  cases r <;> exact .apart hleaves hhalted (hlater.trans hadds)

/-- Two stages keep two runs level, unless one of them leaves. -/
def Abreast (k : Nat) (objectives : List String) (leaves : β → Prop) (x y : Stage (StateM (Chronicle ω σ α)) α β) : Prop :=
  ∀ o o' w, Level k objectives o w o' → Standing k objectives leaves (execute x o w) (execute y o' w)

variable {leaves : β → Prop} {leaves' : γ → Prop}

theorem Abreast.pure (b : β) :
    Abreast k objectives leaves (pure b : Stage (StateM (Chronicle ω σ α)) α β) (pure b) := fun _ _ _ h => .level h

theorem Standing.bind {x y : Stage (StateM (Chronicle ω σ α)) α β} {f g : β → Stage (StateM (Chronicle ω σ α)) α γ}
    {o o' : Optimizer α} {w w' : Chronicle ω σ α} (hxy : Standing k objectives leaves (execute x o w) (execute y o' w'))
    (hfg : ∀ b, Abreast k objectives leaves' (f b) (g b))
    (hleft : ∀ b, leaves b → (∃ d, leaves' d ∧ g b = Pure.pure d) ∧ ∀ b', Grows (f b')) :
    Standing k objectives leaves' (execute (x >>= f) o w) (execute (y >>= g) o' w') := by
  rw [execute_bind, execute_bind]
  generalize execute x o w = p at hxy ⊢
  generalize execute y o' w' = p' at hxy ⊢
  cases hxy with
  | level h => exact hfg _ _ _ _ h
  | failed f => exact .failed f _ _ _
  | @apart r b o₁ o₁' w₁ w₁' hleaves hhalted hlater =>
    obtain ⟨⟨d, hd, hend⟩, hgrows⟩ := hleft b hleaves
    dsimp only
    rw [hend]
    cases r with
    | ok b' => exact .left (hgrows b') hd hhalted hlater
    | error f => exact .apart hd hhalted hlater

theorem Abreast.bind {x y : Stage (StateM (Chronicle ω σ α)) α β} {f g : β → Stage (StateM (Chronicle ω σ α)) α γ}
    (hxy : Abreast k objectives leaves x y) (hfg : ∀ b, Abreast k objectives leaves' (f b) (g b))
    (hleft : ∀ b, leaves b → (∃ d, leaves' d ∧ g b = Pure.pure d) ∧ ∀ b', Grows (f b')) :
    Abreast k objectives leaves' (x >>= f) (y >>= g) := fun o o' w h => (hxy o o' w h).bind hfg hleft

theorem Abreast.drawn_bind {candidates : Except (Fault α) (List (Assignment α))} {next : σ}
    {f g : PUnit → Stage (StateM (Chronicle ω σ α)) α β} (hfg : Abreast k objectives leaves (f ⟨⟩) (g ⟨⟩)) :
    Abreast k objectives leaves (note (.drawn candidates next) >>= f) (note (.drawn candidates next) >>= g) := by
  intro o o' w h
  rw [execute_bind, execute_bind, execute_note, execute_note]
  refine hfg o o' _ ?_
  cases h with
  | before hgoes hlt => exact .before (hgoes.drawn _ _) hlt
  | reached hgoes hat hranked => exact .reached (hgoes.drawn _ _) hat hranked

theorem Abreast.given_bind {r : Except (Fault α) β} {f g : β → Stage (StateM (Chronicle ω σ α)) α γ}
    (hfg : ∀ b, Abreast k objectives leaves' (f b) (g b)) :
    Abreast k objectives leaves' (Optimizer.given r >>= f) (Optimizer.given r >>= g) := by
  cases r with
  | ok b => exact hfg b
  | error f => exact fun o o' w _ => .failed f o o' w

theorem Abreast.reading_bind {r : Except (ValueFault α) β} {f g : β → Stage (StateM (Chronicle ω σ α)) α γ}
    (hfg : ∀ b, Abreast k objectives leaves' (f b) (g b)) :
    Abreast k objectives leaves' (Optimizer.reading r >>= f) (Optimizer.reading r >>= g) := by
  cases r with
  | ok b => exact hfg b
  | error cause => exact fun o o' w _ => .failed (.value cause) o o' w

end

namespace Traced

variable (S : Surroundings (StateM ω) σ α) (e : Evaluation α) (c : SearchConfig α)
  (watch : Progress α → StateM ω (Except (Fault α) Unit)) (k : Nat)

/-- Both runs evaluate a candidate. -/
theorem step_level (a : Assignment α) {o : Optimizer α} {w : Chronicle ω σ α} (hgoes : o.Underway w) (hlt : o.iteration < k) :
    Standing k c.objectives (fun _ => False) (execute (step (S.watched watch) e c a) o w)
      (execute (step (S.stoppedAt watch k) e c a) o w) := by
  unfold step
  rw [execute_bind, execute_bind, execute_note]
  dsimp only
  rw [execute_lift, execute_lift, Optimizer.step_stoppedAt]
  have hstep := Optimizer.step_leads S e c watch a o w.world
  unfold Leads at hstep
  -- the evaluation of the first run says what that of the other one is, up to the stop
  generalize execute (Optimizer.step (S.watched watch) e c a) o w.world = p at hstep ⊢
  obtain ⟨⟨r, o₁⟩, w₁⟩ := p
  cases r with
  | error f => exact .failed f _ _ _
  | ok s =>
    obtain ⟨s', hsolutions⟩ := hstep.solutions
    have hlength : o₁.solutions.length = o₁.iteration := by
      have := congrArg List.length hsolutions
      simp only [Optimizer.length_unmarked, List.length_append, List.length_singleton] at this
      rw [this, hstep.iteration, hgoes.length]
    have hcounted : (Chronicle.evaluations (ω := ω) ⟨w₁, w.events ++ [.evaluated a]⟩).length = o₁.iteration := by
      have hbefore := hgoes.counted
      unfold Chronicle.evaluations at hbefore ⊢
      rw [List.filterMap_append, List.length_append, hbefore, hstep.iteration]
      rfl
    have hnext : o₁.Underway ⟨w₁, w.events ++ [.evaluated a]⟩ :=
      ⟨hstep.status.trans hgoes.status, hstep.stopRequested.trans hgoes.goes, hlength, hcounted⟩
    by_cases hat : o₁.iteration = k
    · dsimp only
      rw [if_pos hat]
      exact .level (.reached hnext hat hstep.ranked)
    · dsimp only
      rw [if_neg hat]
      refine .level (.before hnext ?_)
      have := hstep.iteration
      omega

theorem evaluateSamples_abreast (rest : List (Assignment α)) (search : BayesianSearch α) :
    Abreast k c.objectives (· = none) (evaluateSamples (S.watched watch) e c rest search)
      (evaluateSamples (S.stoppedAt watch k) e c rest search) := by
  induction rest generalizing search with
  | nil => exact .pure _
  | cons a rest ih =>
    intro o o' w h
    cases h with
    | before hgoes hlt =>
      unfold evaluateSamples
      rw [execute_get_bind, execute_get_bind, hgoes.goes]
      exact (step_level S e c watch k a hgoes hlt).bind (fun s => ih _) fun _ h => h.elim
    | reached hgoes hat hranked =>
      -- the stopped run leaves the samples here, and the other one goes on by itself
      have hcut : execute (evaluateSamples (S.stoppedAt watch k) e c (a :: rest) search) o.stopped w =
          ((.ok none, o.stopped), w) := rfl
      rw [hcut]
      refine .left (evaluateSamples_grows S e c watch _ _) ?_ (hgoes.halted hat hranked) (.of_stopped o w)
      rfl

theorem evaluateMembers_abreast (position : Nat) (rest : List (Assignment α)) (search : GeneticSearch α) :
    Abreast k c.objectives (· = none) (evaluateMembers (S.watched watch) e c position rest search)
      (evaluateMembers (S.stoppedAt watch k) e c position rest search) := by
  induction rest generalizing position search with
  | nil => exact .pure _
  | cons a rest ih =>
    intro o o' w h
    cases h with
    | before hgoes hlt =>
      unfold evaluateMembers
      rw [execute_get_bind, execute_get_bind]
      split
      · exact .level (.before hgoes hlt)
      · refine (step_level S e c watch k a hgoes hlt).bind (fun s => ?_) fun _ h => h.elim
        exact .reading_bind fun fitness => .reading_bind fun updated => ih _ _
    | reached hgoes hat hranked =>
      have hcut : execute (evaluateMembers (S.stoppedAt watch k) e c position (a :: rest) search) o.stopped w =
          ((.ok none, o.stopped), w) := by
        unfold evaluateMembers
        rw [execute_get_bind, if_pos (.inr rfl)]
        rfl
      rw [hcut]
      refine .left (evaluateMembers_grows S e c watch _ _ _) ?_ (hgoes.halted hat hranked) (.of_stopped o w)
      rfl

variable [RandomSource σ α]

theorem evaluateSuggestions_abreast (left : Nat) (search : BayesianSearch α) (source : σ) :
    Abreast k c.objectives (fun _ => True) (evaluateSuggestions (S.watched watch) e c left search source)
      (evaluateSuggestions (S.stoppedAt watch k) e c left search source) := by
  induction left generalizing search source with
  | zero => exact .pure _
  | succ left ih =>
    intro o o' w h
    cases h with
    | before hgoes hlt =>
      unfold evaluateSuggestions
      rw [execute_get_bind, execute_get_bind]
      split
      · rcases (search.suggest : Draw σ α (Assignment α)).run source with ⟨suggested, next⟩
        dsimp only
        rw [execute_bind, execute_bind, execute_note]
        cases suggested with
        | error f => exact .failed f _ _ _
        | ok a => exact (step_level S e c watch k a (hgoes.drawn _ _) hlt).bind (fun s => ih _ _) fun _ h => h.elim
      · exact .level (.before hgoes hlt)
    | reached hgoes hat hranked =>
      have hcut : execute (evaluateSuggestions (S.stoppedAt watch k) e c (left + 1) search source) o.stopped w =
          ((.ok (), o.stopped), w) := by
        unfold evaluateSuggestions
        rw [execute_get_bind, if_neg fun h => h.2 rfl]
        rfl
      rw [hcut]
      exact .left (evaluateSuggestions_grows S e c watch _ _ _) trivial (hgoes.halted hat hranked) (.of_stopped o w)

theorem searchAround_abreast : Abreast k c.objectives (fun _ => True) (searchAround (S.watched watch) e c)
    (searchAround (S.stoppedAt watch k) e c) := by
  unfold searchAround
  refine .given_bind fun search => .given_bind fun source => .drawn_bind ?_
  refine (evaluateSamples_abreast S e c watch k _ search).bind (fun r => ?_) ?_
  · cases r with
    | none => exact .pure _
    | some search => exact evaluateSuggestions_abreast S e c watch k _ search _
  · rintro _ rfl
    refine ⟨⟨(), trivial, rfl⟩, fun r => ?_⟩
    cases r with
    | none => exact .pure _
    | some search => exact evaluateSuggestions_grows S e c watch _ search _

theorem evaluateGenerations_abreast (left : Nat) (search : GeneticSearch α) (source : σ) :
    Abreast k c.objectives (fun _ => True) (evaluateGenerations (S.watched watch) e c left search source)
      (evaluateGenerations (S.stoppedAt watch k) e c left search source) := by
  induction left generalizing search source with
  | zero => exact .pure _
  | succ left ih =>
    intro o o' w h
    cases h with
    | before hgoes hlt =>
      unfold evaluateGenerations
      rw [execute_get_bind, execute_get_bind]
      split
      · -- a generation is evaluated, and the next one is drawn even if the stop was asked for at its last member
        refine (evaluateMembers_abreast S e c watch k 0 _ search o o w (.before hgoes hlt)).bind (fun r => ?_) ?_
        · cases r with
          | none => exact .pure _
          | some evaluated => exact .drawn_bind (.given_bind fun next => ih _ _)
        · rintro _ rfl
          refine ⟨⟨(), trivial, rfl⟩, fun r => ?_⟩
          cases r with
          | none => exact .pure _
          | some evaluated => exact .note_bind (.given_bind fun next => evaluateGenerations_grows S e c watch _ _ _)
      · exact .level (.before hgoes hlt)
    | reached hgoes hat hranked =>
      have hcut : execute (evaluateGenerations (S.stoppedAt watch k) e c (left + 1) search source) o.stopped w =
          ((.ok (), o.stopped), w) := by
        unfold evaluateGenerations
        rw [execute_get_bind, if_neg fun h => h.2 rfl]
        rfl
      rw [hcut]
      exact .left (evaluateGenerations_grows S e c watch _ _ _) trivial (hgoes.halted hat hranked) (.of_stopped o w)

theorem searchByGenerations_abreast : Abreast k c.objectives (fun _ => True)
    (searchByGenerations (S.watched watch) e c) (searchByGenerations (S.stoppedAt watch k) e c) := by
  unfold searchByGenerations
  refine .given_bind fun empty => .given_bind fun source => .drawn_bind ?_
  exact evaluateGenerations_abreast S e c watch k _ _ _

theorem search_abreast :
    Abreast k c.objectives (fun _ => True) (search (S.watched watch) e c) (search (S.stoppedAt watch k) e c) := by
  unfold search
  cases c.algorithm with
  | bayesian => exact searchAround_abreast S e c watch k
  | genetic => exact searchByGenerations_abreast S e c watch k

end Traced

end StrategyLab
