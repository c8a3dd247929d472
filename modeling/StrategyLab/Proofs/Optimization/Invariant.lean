/-
Invariants of a run. What every evaluation keeps, a search keeps, whatever it proposes (`search_keeps`), and
what the beginning of a run brings about and its end leaves holds after the run, also after a fault
(`optimize_keeps`). Of an evaluation, `solve_leads` and `progress_leads` say what it makes of the optimizer
besides the solution and the checkpoint that it stores.
-/
import StrategyLab.Proofs.Optimization.Frontier
import StrategyLab.Proofs.Optimization.Stage

namespace StrategyLab

open Stage

variable {ω σ α β γ : Type}

namespace Stage

/-- A stage keeps an invariant, or it fails and leaves surroundings with a property. -/
def Keeps (I : Optimizer α → ω → Prop) (E : ω → Prop) (x : Stage (StateM ω) α β) : Prop :=
  ∀ o w, I o w → Leads x o w (fun _ o' w' => I o' w') fun _ _ w' => E w'

variable {I : Optimizer α → ω → Prop} {E : ω → Prop}

theorem Keeps.pure (b : β) : Keeps I E (pure b : Stage (StateM ω) α β) := fun _ _ h => h

theorem Keeps.bind {x : Stage (StateM ω) α β} {f : β → Stage (StateM ω) α γ} (hx : Keeps I E x)
    (hf : ∀ b, Keeps I E (f b)) : Keeps I E (x >>= f) := fun o w h => (hx o w h).bind fun b o' w' h' => hf b o' w' h'

theorem Keeps.get_bind {f : Optimizer α → Stage (StateM ω) α γ} (hf : ∀ o, Keeps I E (f o)) : Keeps I E (get >>= f) :=
  fun o w h => .get_bind (hf o o w h)

theorem Keeps.given_bind (hE : ∀ o w, I o w → E w) {r : Except (Fault α) β} {f : β → Stage (StateM ω) α γ}
    (hf : ∀ b, Keeps I E (f b)) : Keeps I E (Optimizer.given r >>= f) :=
  fun o w h => .given_bind (fun _ _ => hE o w h) fun b _ => hf b o w h

theorem Keeps.reading_bind (hE : ∀ o w, I o w → E w) {r : Except (ValueFault α) β} {f : β → Stage (StateM ω) α γ}
    (hf : ∀ b, Keeps I E (f b)) : Keeps I E (Optimizer.reading r >>= f) :=
  fun o w h => .reading_bind (fun _ _ => hE o w h) fun b _ => hf b o w h

end Stage

/-! ## One evaluation -/

/-- What is told of the progress of an optimizer whose solutions are marked like this. -/
structure Progress.Tells [Scalar α] (p : Progress α) (c : SearchConfig α) (o : Optimizer α)
    (found : List (Solution α)) : Prop where
  marked : Frontier.mark o.solutions c.objectives = .ok found
  iteration : p.iteration = o.iteration
  frontier : p.frontier = Frontier.members found
  best : Progress.bestOf c.primary p.frontier = .ok p.best

namespace Optimizer

section

variable [Scalar α] (S : Surroundings (StateM ω) σ α) (e : Evaluation α) (c : SearchConfig α) {K : ω → Prop}

/-- Finding the solution for an assignment leaves the optimizer as it is. -/
theorem solve_leads (id : String) (a : Assignment α) (o : Optimizer α) {w : ω} (h : K ((S.evaluate e id a).run w).2) :
    Leads (solve S e id a) o w (fun _ o' w' => o' = o ∧ K w') fun _ o' w' => o' = o ∧ K w' := by
  unfold solve
  refine .outside_bind ?_
  cases ((S.evaluate e id a).run w).1 with
  | ok s => exact ⟨rfl, h⟩
  | error f => cases f <;> exact ⟨rfl, h⟩

/-- Telling the progress marks the solutions, and nothing else. -/
theorem progress_leads (hnow : ∀ w, K w → K (S.now.run w).2) (hactive : ∀ w, K w → K (S.active.run w).2)
    (hreported : ∀ w, K w → K (S.fetchReported.run w).2) (o : Optimizer α) {w : ω} (h : K w) :
    Leads (progress S c) o w
      (fun p o' w' => (∃ found, p.Tells c o found ∧ o' = { o with solutions := found }) ∧ K w')
      fun _ o' w' => (∃ found, found.map (·.marked false) = o.solutions.map (·.marked false) ∧
        o' = { o with solutions := found }) ∧ K w' := by
  unfold progress
  refine .get_bind (.reading_bind (fun _ _ => ⟨⟨_, rfl, rfl⟩, h⟩) fun found hfound => .set_bind (.outside_bind ?_))
  have htime := hnow w h
  refine .reading_bind (fun _ _ => ⟨⟨found, Frontier.unmarked_mark hfound, rfl⟩, htime⟩) fun best hbest => ?_
  exact .outside_bind (.outside_bind (.pure ⟨⟨found, ⟨hfound, rfl, rfl, hbest⟩, rfl⟩, hreported _ (hactive _ htime)⟩))

end

/-! ## All evaluations -/

variable [Scalar α] {I : Optimizer α → ω → Prop} {E : ω → Prop} (hE : ∀ o w, I o w → E w)
  {S : Surroundings (StateM ω) σ α} {e : Evaluation α} {c : SearchConfig α} (hstep : ∀ a, Keeps I E (step S e c a))

include hstep in
theorem evaluateSamples_keeps (rest : List (Assignment α)) (search : BayesianSearch α) :
    Keeps I E (evaluateSamples S e c rest search) := by
  induction rest generalizing search with
  | nil => exact .pure _
  | cons a rest ih =>
    unfold evaluateSamples
    refine .get_bind fun o => ?_
    split
    · exact .pure _
    · exact (hstep a).bind fun s => ih _

include hE hstep

theorem evaluateMembers_keeps (position : Nat) (rest : List (Assignment α)) (search : GeneticSearch α) :
    Keeps I E (evaluateMembers S e c position rest search) := by
  induction rest generalizing position search with
  | nil => exact .pure _
  | cons a rest ih =>
    unfold evaluateMembers
    refine .get_bind fun o => ?_
    split
    · exact .pure _
    · exact (hstep a).bind fun s => .reading_bind hE fun fitness => .reading_bind hE fun updated => ih _ _

variable [RandomSource σ α]

theorem evaluateSuggestions_keeps (left : Nat) (search : BayesianSearch α) (source : σ) :
    Keeps I E (evaluateSuggestions S e c left search source) := by
  induction left generalizing search source with
  | zero => exact .pure _
  | succ left ih =>
    unfold evaluateSuggestions
    refine .get_bind fun o => ?_
    split
    · exact .given_bind hE fun a => (hstep a).bind fun s => ih _ _
    · exact .pure _

theorem evaluateGenerations_keeps (left : Nat) (search : GeneticSearch α) (source : σ) :
    Keeps I E (evaluateGenerations S e c left search source) := by
  induction left generalizing search source with
  | zero => exact .pure _
  | succ left ih =>
    unfold evaluateGenerations
    refine .get_bind fun o => ?_
    split
    · refine (evaluateMembers_keeps hE hstep 0 _ search).bind fun r => ?_
      cases r with
      | none => exact .pure _
      | some evaluated => exact .given_bind hE fun next => ih _ _
    · exact .pure _

/-- Both searches keep what every evaluation keeps. -/
theorem search_keeps : Keeps I E (search S e c) := by
  unfold search
  cases c.algorithm with
  | bayesian =>
    unfold searchAround
    refine .given_bind hE fun search => .given_bind hE fun source => ?_
    refine (evaluateSamples_keeps hstep _ search).bind fun r => ?_
    cases r with
    | none => exact .pure _
    | some search => exact evaluateSuggestions_keeps hE hstep _ search _
  | genetic =>
    unfold searchByGenerations
    exact .given_bind hE fun empty => .given_bind hE fun source => evaluateGenerations_keeps hE hstep _ _ _

omit hE hstep in
/-- What a run leads to, by its beginning, its search and its end. A fault of the search stops the run, and the
surroundings stay. -/
theorem optimize_leads {J : Optimizer α → ω → Prop} {Q : SearchResult α → Optimizer α → ω → Prop} {blocks : List (Block α)}
    {o : Optimizer α} {w : ω} (hbegin : Leads (begin S blocks c) o w (fun _ o' w' => J o' w') fun _ _ w' => E w')
    (hsearch : ∀ e o w, J o w → Leads (search S e c) o w (fun _ o' w' => I o' w') fun _ _ w' => E w')
    (hfinish : ∀ o w, I o w → Leads (finish S c) o w Q fun _ _ w' => E w') :
    Leads (optimize S blocks c) o w Q fun _ _ w' => E w' := by
  unfold optimize
  refine hbegin.bind fun e o₁ w₁ h₁ => Leads.bind ?_ fun _ o₂ w₂ => hfinish o₂ w₂
  exact (hsearch e o₁ w₁ h₁).tryCatch fun f o₂ w₂ h₂ => .modify_bind h₂

omit hstep in
/-- What holds after a run, however it ends. -/
theorem optimize_keeps {blocks : List (Block α)} {o : Optimizer α} {w : ω} (hstep : ∀ e a, Keeps I E (step S e c a))
    (hbegin : Leads (begin S blocks c) o w (fun _ o' w' => I o' w') fun _ _ w' => E w')
    (hfinish : ∀ o w, I o w → Leads (finish S c) o w (fun _ _ w' => E w') fun _ _ w' => E w') :
    E (execute (optimize S blocks c) o w).2 :=
  (optimize_leads hbegin (fun e => search_keeps hE (hstep e)) hfinish).either

end Optimizer

end StrategyLab
