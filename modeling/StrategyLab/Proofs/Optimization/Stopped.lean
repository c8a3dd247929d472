/-
Stopping a run. A run that is stopped after an iteration does all that the run does that goes on, up to
that point: it evaluates the same candidates, gets the same solutions, and draws nothing that the other
one does not draw there (`optimize_stopped`).
-/
import StrategyLab.Proofs.Optimization.Abreast
import StrategyLab.Proofs.Optimization.Budget

namespace StrategyLab

open Stage Chronicle

variable {ω σ α : Type} [Scalar α]

/-! ## The end of a run -/

/-- A store refuses a result. -/
def Surroundings.Refuses (S : Surroundings (StateM ω) σ α) (f : Fault α) : Prop :=
  ∃ v w w', (S.storeResult v).run w = (.error f, w')

/-- How a run that is stopped after an iteration ends, next to the one that goes on. -/
structure Shortened (S : Surroundings (StateM ω) σ α) (k : Nat)
    (full cut : (Except (Fault α) (SearchResult α) × Optimizer α) × Chronicle ω σ α) : Prop where
  /-- It does nothing but what the other one does there. -/
  events : cut.2.events <+: full.2.events
  /-- If it ends with a result, this has the first solutions of the other run. -/
  stopped : ∀ r', cut.1.1 = .ok r' →
    r'.solutions.map (·.marked false) = (full.1.2.solutions.map (·.marked false)).take k ∧
    r'.iterations = min k full.1.2.iteration ∧ cut.2.evaluations.length = r'.iterations ∧
    r'.status = if k ≤ full.1.2.iteration then .stopped else .completed
  /-- If it fails, so does the other one, unless the result of the stopped run cannot be stored. -/
  fails : ∀ f, cut.1.1 = .error f → full.1.1 = .error f ∨ S.Refuses f
  /-- The result of the run that goes on has all its solutions. -/
  whole : ∀ r, full.1.1 = .ok r → r.solutions = full.1.2.solutions ∧ r.iterations = full.1.2.iteration

namespace Optimizer

variable (S : Surroundings (StateM ω) σ α) (c : SearchConfig α)

theorem begin_leads (blocks : List (Block α)) (o : Optimizer α) (w : ω) :
    Leads (begin S blocks c) o w (fun _ o' _ => ∃ time, o' = started time) fun _ _ _ => True := by
  unfold begin
  refine .get_bind ?_
  split
  · exact trivial
  · refine .given_bind (fun _ _ => trivial) fun _ _ => .given_bind (fun _ _ => trivial) fun e _ => .outside_bind (.set_bind ?_)
    exact .attempting_bind (fun _ _ _ => trivial) fun _ _ _ => .pure ⟨_, rfl⟩

theorem finish_leads (o : Optimizer α) (w : ω) :
    Leads (finish S c) o w
      (fun r o' _ => o'.unmarked = o.unmarked ∧ o'.iteration = o.iteration ∧ r.solutions = o'.solutions ∧
        r.iterations = o'.iteration ∧ r.status = if o.status = .running then .completed else o.status)
      fun f o' _ => o'.unmarked = o.unmarked ∧ o'.iteration = o.iteration ∧
        ((∃ found, Frontier.mark o.solutions c.objectives = .ok found) → S.Refuses f) := by
  unfold finish
  refine .modify_bind (.get_bind ?_)
  have hfinal : ∀ o₁ : Optimizer α, (if o.status = .running then { o with status := .completed } else o) = o₁ →
      o₁.solutions = o.solutions ∧ o₁.iteration = o.iteration ∧
        o₁.status = if o.status = .running then .completed else o.status := by
    rintro o₁ rfl
    split <;> exact ⟨rfl, rfl, rfl⟩
  -- whether the run completed or was stopped, its solutions are marked in the same way
  generalize (if o.status = .running then ({ o with status := .completed } : Optimizer α) else o) = o₁ at hfinal ⊢
  obtain ⟨hsolutions, hiteration, hstatus⟩ := hfinal o₁ rfl
  refine .reading_bind (fun cause hfails => ?_) fun found hfound => .set_bind (.outside_bind (.outside_bind ?_))
  · refine ⟨by unfold unmarked; rw [hsolutions], hiteration, ?_⟩
    rintro ⟨found, hfound⟩
    rw [hsolutions, hfound] at hfails
    cases hfails
  rw [hsolutions] at hfound
  refine .attempting_bind (fun f w' hrefused => ?_) fun _ _ _ => .pure ?_
  · exact ⟨Frontier.unmarked_mark hfound, hiteration, fun _ => ⟨_, _, _, hrefused⟩⟩
  · exact ⟨Frontier.unmarked_mark hfound, hiteration, rfl, rfl, hstatus⟩

end Optimizer

namespace Traced

variable (S : Surroundings (StateM ω) σ α) (c : SearchConfig α)

/-- What follows the search. -/
def conclude (p : (Except (Fault α) Unit × Optimizer α) × Chronicle ω σ α) :
    (Except (Fault α) (SearchResult α) × Optimizer α) × Chronicle ω σ α :=
  match p with
  | ((.ok (), o), w) => execute (lift (Optimizer.finish S c)) o w
  | ((.error f, o), w) => ((.error f, { o with status := .stopped }), w)

/-- After the search a run evaluates and draws nothing, and its result is that of its search. -/
structure Concluded (p : (Except (Fault α) Unit × Optimizer α) × Chronicle ω σ α)
    (q : (Except (Fault α) (SearchResult α) × Optimizer α) × Chronicle ω σ α) : Prop where
  unmarked : q.1.2.unmarked = p.1.2.unmarked
  iteration : q.1.2.iteration = p.1.2.iteration
  events : q.2.events = p.2.events
  result : ∀ r, q.1.1 = .ok r → r.solutions = q.1.2.solutions ∧ r.iterations = q.1.2.iteration ∧
    r.status = if p.1.2.status = .running then .completed else p.1.2.status
  fails : ∀ f, q.1.1 = .error f → p.1.1 = .error f ∨
    ((∃ found, Frontier.mark p.1.2.solutions c.objectives = .ok found) → S.Refuses f)

theorem Concluded.evaluations {p : (Except (Fault α) Unit × Optimizer α) × Chronicle ω σ α}
    {q : (Except (Fault α) (SearchResult α) × Optimizer α) × Chronicle ω σ α} (h : Concluded S c p q) :
    q.2.evaluations = p.2.evaluations := congrArg (List.filterMap RunEvent.evaluated?) h.events

theorem conclude_spec (p : (Except (Fault α) Unit × Optimizer α) × Chronicle ω σ α) :
    Concluded S c p (conclude S c p) := by
  obtain ⟨⟨r, o⟩, w⟩ := p
  cases r with
  | error f =>
    refine ⟨rfl, rfl, rfl, fun _ h => ?_, fun _ h => ?_⟩
    · cases h
    · cases h
      exact .inl rfl
  | ok u =>
    have hfinish := Optimizer.finish_leads S c o w.world
    unfold conclude Leads at *
    dsimp only
    rw [execute_lift]
    generalize execute (Optimizer.finish S c) o w.world = p at hfinish ⊢
    obtain ⟨⟨r, o'⟩, w'⟩ := p
    cases r with
    | ok r =>
      obtain ⟨hunmarked, hiteration, hresult⟩ := hfinish
      refine ⟨hunmarked, hiteration, rfl, fun _ h => ?_, fun _ h => ?_⟩
      · cases h
        exact hresult
      · cases h
    | error f =>
      obtain ⟨hunmarked, hiteration, hrefused⟩ := hfinish
      refine ⟨hunmarked, hiteration, rfl, fun _ h => ?_, fun _ h => ?_⟩
      · cases h
      · cases h
        exact .inr hrefused

variable {k : Nat}

/-- The run that is stopped has left its search. -/
theorem conclude_apart {r : Except (Fault α) Unit} {o o' : Optimizer α} {w w' : Chronicle ω σ α}
    (hhalted : o'.Halted k c.objectives w') (hlater : Later o' w' o w) :
    Shortened S k (conclude S c ((r, o), w)) (conclude S c ((.ok (), o'), w')) := by
  have hfull := conclude_spec S c ((r, o), w)
  have hcut := conclude_spec S c ((.ok (), o'), w')
  have hk : k ≤ o.iteration := hhalted.iteration ▸ hlater.iteration
  -- what the other run adds after the stop comes behind the solutions of this one
  have hfirst : o'.unmarked = o.unmarked.take k := by
    have hprefix := List.prefix_iff_eq_take.1 hlater.solutions
    rwa [Optimizer.length_unmarked, hhalted.length] at hprefix
  refine ⟨?_, fun r' hr' => ?_, fun f hf => ?_, fun r₁ hr₁ => ?_⟩
  · rw [hfull.events, hcut.events]
    exact hlater.events
  · obtain ⟨hsolutions, hiterations, hstatus⟩ := hcut.result r' hr'
    rw [hfull.iteration]
    refine ⟨?_, ?_, ?_, ?_⟩
    · rw [hsolutions]
      exact hcut.unmarked.trans (hfirst.trans (congrArg (List.take k) hfull.unmarked.symm))
    · rw [hiterations, hcut.iteration, hhalted.iteration, Nat.min_eq_left hk]
    · rw [hcut.evaluations, hhalted.counted, hiterations, hcut.iteration, hhalted.iteration]
    · rw [if_pos hk, hstatus, hhalted.status]
      rfl
  · rcases hcut.fails f hf with h | h
    · cases h
    · exact .inr (h hhalted.ranked)
  · obtain ⟨hsolutions, hiterations, -⟩ := hfull.result r₁ hr₁
    exact ⟨hsolutions, hiterations⟩

/-- Both runs have come to the end of their search before the stop. -/
theorem conclude_before {o : Optimizer α} {w : Chronicle ω σ α} (hgoes : o.Underway w) (hlt : o.iteration < k) :
    Shortened S k (conclude S c ((.ok (), o), w)) (conclude S c ((.ok (), o), w)) := by
  have hboth := conclude_spec S c ((.ok (), o), w)
  have hlength : (conclude S c ((.ok (), o), w)).1.2.unmarked.length ≤ k := by
    rw [hboth.unmarked, Optimizer.length_unmarked, hgoes.length]
    omega
  have hnot : ¬ k ≤ o.iteration := by omega
  refine ⟨List.prefix_rfl, fun r hr => ?_, fun _ hf => .inl hf, fun r hr => ?_⟩
  · obtain ⟨hsolutions, hiterations, hstatus⟩ := hboth.result r hr
    refine ⟨?_, ?_, ?_, ?_⟩
    · rw [hsolutions]
      exact (List.take_of_length_le hlength).symm
    · rw [hiterations, hboth.iteration, Nat.min_eq_right hlt.le]
    · rw [hboth.evaluations, hgoes.counted, hiterations, hboth.iteration]
    · rw [hboth.iteration, if_neg hnot, hstatus, if_pos hgoes.status]
  · obtain ⟨hsolutions, hiterations, -⟩ := hboth.result r hr
    exact ⟨hsolutions, hiterations⟩

theorem conclude_standing {p p' : (Except (Fault α) Unit × Optimizer α) × Chronicle ω σ α}
    (h : Standing k c.objectives (fun _ => True) p p') : Shortened S k (conclude S c p) (conclude S c p') := by
  cases h with
  | level h =>
    cases h with
    | before hgoes hlt => exact conclude_before S c hgoes hlt
    | reached hgoes hat hranked => exact conclude_apart S c (hgoes.halted hat hranked) (.of_stopped _ _)
  | failed f o o' w =>
    have hfails : ∀ o : Optimizer α, (conclude S c ((.error f, o), w)).1.1 = .error f := fun _ => rfl
    refine ⟨List.prefix_rfl, fun r hr => ?_, fun f' hf' => ?_, fun r hr => ?_⟩
    · rw [hfails] at hr
      cases hr
    · rw [hfails] at hf' ⊢
      exact .inl hf'
    · rw [hfails] at hr
      cases hr
  | apart _ hhalted hlater => exact conclude_apart S c hhalted hlater

variable [RandomSource σ α] (watch : Progress α → StateM ω (Except (Fault α) Unit))

theorem optimize_eq (blocks : List (Block α)) (o : Optimizer α) (w : Chronicle ω σ α) :
    execute (optimize S c blocks) o w =
      match execute (lift (Optimizer.begin S blocks c)) o w with
      | ((.ok e, o'), w') => conclude S c (execute (search S e c) o' w')
      | ((.error f, o'), w') => ((.error f, o'), w') := by
  unfold optimize
  rw [execute_bind]
  rcases execute (lift (Optimizer.begin S blocks c)) o w with ⟨⟨r, o'⟩, w'⟩
  cases r with
  | error f => rfl
  | ok e =>
    dsimp only
    rw [execute_bind, execute_tryCatch]
    rcases execute (search S e c) o' w' with ⟨⟨r, o₁⟩, w₁⟩
    cases r <;> rfl

/-- A run that is stopped after an iteration, with its chronicle. -/
theorem optimize_shortened (hk : 0 < k) (blocks : List (Block α)) (o : Optimizer α) (w : ω) :
    Shortened S k (execute (optimize (S.watched watch) c blocks) o ⟨w, []⟩)
      (execute (optimize (S.stoppedAt watch k) c blocks) o ⟨w, []⟩) := by
  -- nobody watches a run before its first evaluation, nor after its last
  have hbegin : Optimizer.begin (S.stoppedAt watch k) blocks c = Optimizer.begin S blocks c := rfl
  have hbegin' : Optimizer.begin (S.watched watch) blocks c = Optimizer.begin S blocks c := rfl
  have hconclude : conclude (S.stoppedAt watch k) c = conclude S c := rfl
  have hconclude' : conclude (S.watched watch) c = conclude S c := rfl
  have hleads := Optimizer.begin_leads S c blocks o w
  rw [optimize_eq, optimize_eq, hbegin, hbegin', hconclude, hconclude', execute_lift]
  unfold Leads at hleads
  generalize execute (Optimizer.begin S blocks c) o w = p at hleads ⊢
  obtain ⟨⟨r, o₁⟩, w₁⟩ := p
  cases r with
  | error f =>
    dsimp only
    refine ⟨List.prefix_rfl, fun _ h => ?_, fun _ h => .inl h, fun _ h => ?_⟩
    · cases h
    · cases h
  | ok e =>
    obtain ⟨time, rfl⟩ := hleads
    have hgoes : (Optimizer.started time).Underway (⟨w₁, []⟩ : Chronicle ω σ α) := ⟨rfl, rfl, rfl, rfl⟩
    dsimp only
    exact conclude_standing S c (search_abreast S e c watch k _ _ _ (.before hgoes hk))

end Traced

namespace Optimizer

/-- A stopped run is the beginning of the run that is not. Let a run be watched by someone who stops it after
an iteration, and let another one begin in the same way, watched as well but never stopped. The stopped one
evaluates and draws what the other one does up to there, and ends with its first solutions. -/
theorem optimize_stopped [RandomSource σ α] (S : Surroundings (StateM ω) σ α)
    (watch : Progress α → StateM ω (Except (Fault α) Unit)) {k : Nat} (hk : 0 < k) (o : Optimizer α) (w : ω)
    (blocks : List (Block α)) (c : SearchConfig α) :
    ∃ full cut : (Except (Fault α) (SearchResult α) × Optimizer α) × Chronicle ω σ α,
      full = execute (Traced.optimize (S.watched watch) c blocks) o ⟨w, []⟩ ∧
      cut = execute (Traced.optimize (S.stoppedAt watch k) c blocks) o ⟨w, []⟩ ∧
      ((optimize (S.watched watch) blocks c).run.run o).run w = (full.1, full.2.world) ∧
      ((optimize (S.stoppedAt watch k) blocks c).run.run o).run w = (cut.1, cut.2.world) ∧
      Shortened S k full cut :=
  ⟨_, _, rfl, rfl, (Traced.optimize_erases _ c blocks o ⟨w, []⟩).symm,
    (Traced.optimize_erases _ c blocks o ⟨w, []⟩).symm, Traced.optimize_shortened S c watch hk blocks o w⟩

/-! ### A run that is stopped before the last member of its generation -/

local instance openPartsOfStops : ExactArithmetic := default

/-- A source that always draws zero. -/
local instance zeroSourceOfStops : RandomSource Unit ℚ := ⟨fun s => (0, s), fun _ s => (0, s)⟩

/-- The stopped run leaves out the last evaluation, and the draw of the next generation. -/
theorem last_member_left_out :
    let S := (firstFails fun _ => false).surroundings
    let watch : Progress ℚ → StateM (Log Unit ℚ) (Except (Fault ℚ) Unit) := fun _ => pure (.ok ())
    let c := searchFor .genetic 4
    let full := execute (Traced.optimize (S.watched watch) c swapped) idle ⟨Log.start (), []⟩
    let cut := execute (Traced.optimize (S.stoppedAt watch 3) c swapped) idle ⟨Log.start (), []⟩
    0 < 3 ∧ Shortened S 3 full cut ∧ full.2.events.length = 6 ∧ cut.2.events = full.2.events.take 4 ∧
      ∃ r r', full.1.1 = .ok r ∧ cut.1.1 = .ok r' ∧ r.iterations = 4 ∧ r'.iterations = 3 ∧
        r'.solutions.map (·.marked false) = (r.solutions.map (·.marked false)).take 3 := by
  intro S watch c full cut
  have hk : 0 < 3 := by decide
  obtain ⟨_, _, rfl, rfl, -, -, hshort⟩ := optimize_stopped S watch hk idle (Log.start ()) swapped c
  have hfull : full.1.1.toOption.map (·.iterations) = some 4 := by decide +kernel
  have hcut : cut.1.1.toOption.map (·.iterations) = some 3 := by decide +kernel
  have hevents : full.2.events.length = 6 := by decide +kernel
  have hevents' : cut.2.events.length = 4 := by decide +kernel
  obtain ⟨r, hr, hfour⟩ := ok_of_toOption hfull
  obtain ⟨r', hr', hthree⟩ := ok_of_toOption hcut
  obtain ⟨hsolutions, -, -⟩ := hshort.stopped r' hr'
  obtain ⟨hwhole, -⟩ := hshort.whole r hr
  refine ⟨hk, hshort, hevents, ?_, r, r', hr, hr', hfour, hthree, ?_⟩
  · rw [← hevents']
    exact List.prefix_iff_eq_take.1 hshort.events
  · rw [hsolutions, hwhole]

end Optimizer

end StrategyLab
