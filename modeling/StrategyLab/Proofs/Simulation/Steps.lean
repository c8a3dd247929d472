/-
What a run does, step by step, over any scalars. A run that returns went through every stage
(`run_ok`); its steps add points and trades of the instants of the grid and change none that are
there (`steps_ok`); and oracles that give the same prices at the instants of a grid make the same
steps (`steps_congr`). Between two known instants a run reads its grid (`grid_eq`) and, for every token
that it needs, the window of the token's series (`lookup_usable`).
-/
import StrategyLab.Proofs.Block.Record
import StrategyLab.Proofs.Price.Oracle
import StrategyLab.Proofs.Simulation.Grid
import StrategyLab.Proofs.Simulation.Opening

namespace StrategyLab.Simulation

variable {α : Type} [Scalar α]

/-! ## Stages of a run -/

/-- The series that are read from, of what was fetched. -/
def usable (fetched : Oracle α) : Oracle α := fetched.filter fun (_, series) => !series.isEmpty

/-- A run that returns: what was fetched, the account it started with, its grid and its last state. -/
structure Course (blocks : List (Block α)) (o : Oracle α) (c : RunConfig α) (tokens : List String)
    (fetched : Oracle α) (l : Ledger α) (grid : List Instant) (s : State α) : Prop where
  names : strategyTokens blocks = .ok tokens
  fetches : o.prices (neededTokens c tokens) c.start c.stop c.granularity = .ok fetched
  opens : openLedger c.capital c.baseCurrency c.holdings = .ok l
  divides : Grid.build c.start c.stop c.interval = .ok grid
  ends : grid.foldlM (step blocks (usable fetched) c.baseCurrency (neededTokens c tokens))
    (initialState l (neededTokens c tokens)) = .ok s

theorem run_ok {blocks : List (Block α)} {o : Oracle α} {c : RunConfig α} {r : Report α}
    (h : run blocks o c = .ok r) : ∃ tokens fetched l grid s,
      Course blocks o c tokens fetched l grid s ∧ report c s = .ok r := by
  obtain ⟨tokens, htokens, h⟩ := bind_ok h
  obtain ⟨fetched, hfetched, h⟩ := bind_ok h
  obtain ⟨-, h⟩ := guard_ok h
  obtain ⟨l, hl, h⟩ := bind_ok h
  obtain ⟨grid, hgrid, h⟩ := bind_ok h
  obtain ⟨s, hs, h⟩ := bind_ok h
  exact ⟨tokens, fetched, l, grid, s, ⟨htokens, hfetched, hl, hgrid, hs⟩, h⟩

theorem report_ok {c : RunConfig α} {s : State α} {r : Report α} (h : report c s = .ok r) :
    r.curve = s.curve.reverse ∧ r.trades = s.ledger.trades ∧ r.skipped = s.skipped := by
  unfold report at h
  dsimp only at h
  split at h
  · cases h
  · obtain ⟨days, -, h⟩ := bind_ok h
    cases h
    exact ⟨rfl, rfl, rfl⟩

/-! ## What steps add -/

/-- From one state to another only points and trades of some instants were added. -/
structure Adds (instants : List Instant) (s s' : State α) : Prop where
  curve : ∃ later, s'.curve = later ++ s.curve ∧ ∀ p ∈ later, p.1 ∈ instants
  trades : ∃ new, s'.ledger.trades = s.ledger.trades ++ new ∧ ∀ x ∈ new, x.timestamp ∈ instants

omit [Scalar α] in
theorem Adds.refl (instants : List Instant) (s : State α) : Adds instants s s :=
  ⟨⟨[], rfl, fun _ h => absurd h List.not_mem_nil⟩,
    ⟨[], (List.append_nil _).symm, fun _ h => absurd h List.not_mem_nil⟩⟩

omit [Scalar α] in
theorem Adds.trans {first rest : List Instant} {a b c : State α} (h₁ : Adds first a b) (h₂ : Adds rest b c) :
    Adds (first ++ rest) a c := by
  obtain ⟨⟨later₁, hc₁, hp₁⟩, ⟨new₁, ht₁, hn₁⟩⟩ := h₁
  obtain ⟨⟨later₂, hc₂, hp₂⟩, ⟨new₂, ht₂, hn₂⟩⟩ := h₂
  refine ⟨⟨later₂ ++ later₁, by rw [hc₂, hc₁, List.append_assoc], fun p hp => ?_⟩,
    ⟨new₁ ++ new₂, by rw [ht₂, ht₁, List.append_assoc], fun x hx => ?_⟩⟩
  · rcases List.mem_append.1 hp with hp | hp
    · exact List.mem_append_right _ (hp₂ p hp)
    · exact List.mem_append_left _ (hp₁ p hp)
  · rcases List.mem_append.1 hx with hx | hx
    · exact List.mem_append_left _ (hn₁ x hx)
    · exact List.mem_append_right _ (hn₂ x hx)

/-- An executed step measures the time since the last one, accrues interest and executes the blocks,
of which none raises a fault; the point it adds is the equity after them. -/
theorem executeStep_ok {blocks : List (Block α)} {s s' : State α} {t : Instant} {prices : List (String × α)}
    (h : executeStep blocks s t prices = .ok s') : ∃ (days : α) (m : Market α) (x : α),
      m.timestamp = t ∧
      (SequenceRun.execute blocks m (s.ledger.accrueInterest (.real days)).2).fault = none ∧
      s'.ledger = (SequenceRun.execute blocks m (s.ledger.accrueInterest (.real days)).2).ledger ∧
      s'.curve = (t, x) :: s.curve ∧ s'.skipped = s.skipped := by
  obtain ⟨days, -, h⟩ := bind_ok h
  dsimp only at h
  split at h
  · cases h
  · rename_i hnone
    cases h
    exact ⟨days, _, _, rfl, hnone, rfl, rfl, rfl⟩

theorem step_ok {blocks : List (Block α)} {o : Oracle α} {base : String} {needed : List String}
    {s s' : State α} {t : Instant} (hl : s.ledger.Reachable) (h : step blocks o base needed s t = .ok s') :
    Adds [t] s s' ∧ s'.ledger.Reachable := by
  obtain ⟨prices, -, h⟩ := bind_ok h
  split at h
  · cases h; exact ⟨⟨⟨[], rfl, by simp⟩, ⟨[], by simp, by simp⟩⟩, hl⟩
  obtain ⟨days, m, x, hm, hnone, hledger, hcurve, -⟩ := executeStep_ok h
  have hgrown : (s.ledger.accrueInterest (.real days)).2.Reachable :=
    hl.becomes (show Ledger.Operates (fun _ => True) _ _ from .accrued s.ledger (.real days)).becomes
  obtain ⟨new, htrades, hstamps⟩ := SequenceRun.after_records hgrown hnone
  rw [Ledger.trades_accrueInterest] at htrades
  refine ⟨⟨⟨[(t, x)], hcurve, by simp⟩, ⟨new, by rw [hledger]; exact htrades, fun y hy => ?_⟩⟩, ?_⟩
  · rw [List.mem_singleton, hstamps y hy, hm]
  · rw [hledger]
    exact hgrown.becomes (SequenceRun.after_becomes m blocks none _)

/-- The steps of a grid add points and trades of its instants. -/
theorem steps_ok {blocks : List (Block α)} {o : Oracle α} {base : String} {needed : List String} :
    ∀ {grid : List Instant} {s s' : State α}, s.ledger.Reachable →
      grid.foldlM (step blocks o base needed) s = .ok s' → Adds grid s s' ∧ s'.ledger.Reachable
  | [], s, s', hl, h => by cases h; exact ⟨.refl _ _, hl⟩
  | t :: rest, s, s', hl, h => by
    rw [List.foldlM_cons] at h
    obtain ⟨s₁, h₁, h⟩ := bind_ok h
    obtain ⟨hfirst, hl₁⟩ := step_ok hl h₁
    obtain ⟨hrest, hl'⟩ := steps_ok hl₁ h
    exact ⟨hfirst.trans hrest, hl'⟩

/-! ## Steps on the same prices -/

/-- The prices of a step come in the order of the tokens. -/
theorem stepPrices_sublist {o : Oracle α} {base : String} {t : Instant} {needed : List String}
    {prices : List (String × α)} (h : stepPrices o base t needed = .ok prices) : (prices.map (·.1)).Sublist needed := by
  refine filterMapM_names (fun token b hb => ?_) h
  obtain ⟨price, -, hb⟩ := bind_ok hb
  split at hb
  · cases hb
    rfl
  · cases hb

theorem stepPrices_congr {o o' : Oracle α} {base : String} {t : Instant} : ∀ {needed : List String},
    (∀ token ∈ needed, stepPrice o base t token = stepPrice o' base t token) →
      stepPrices o base t needed = stepPrices o' base t needed
  | [], _ => rfl
  | token :: rest, h => by
    have ih : stepPrices o base t rest = stepPrices o' base t rest :=
      stepPrices_congr fun token' ht => h token' (List.mem_cons_of_mem token ht)
    unfold stepPrices at ih ⊢
    rw [List.filterMapM_cons, List.filterMapM_cons, h token (List.mem_cons_self ..), ih]

theorem steps_congr {blocks : List (Block α)} {o o' : Oracle α} {base : String} {needed : List String} :
    ∀ {grid : List Instant} (s : State α),
      (∀ t ∈ grid, ∀ token ∈ needed, stepPrice o base t token = stepPrice o' base t token) →
      grid.foldlM (step blocks o base needed) s = grid.foldlM (step blocks o' base needed) s
  | [], _, _ => rfl
  | t :: rest, s, h => by
    have hstep : step blocks o base needed s t = step blocks o' base needed s t := by
      unfold step
      rw [stepPrices_congr (h t (List.mem_cons_self ..))]
    rw [List.foldlM_cons, List.foldlM_cons, hstep]
    exact congrArg _ (funext fun s₁ => steps_congr s₁ fun t' ht => h t' (List.mem_cons_of_mem t ht))

end StrategyLab.Simulation

namespace StrategyLab

variable {α : Type} [Scalar α]

/-! ## What a run reads -/

/-- A configuration between two known instants, in steps of a whole number of milliseconds. -/
structure RunConfig.Spans (c : RunConfig α) (start stop interval : Int) : Prop where
  start_eq : c.start = .known start
  stop_eq : c.stop = .known stop
  lt : start < stop
  interval_eq : c.interval = .whole interval
  pos : 0 < interval

namespace Simulation

theorem step_pos {interval : Int} (h : 0 < interval) : 0 < interval * Instant.perMillisecond :=
  mul_pos h (by decide)

theorem build_eq {c : RunConfig α} {start stop interval : Int} (hc : c.Spans start stop interval) :
    Grid.build c.start c.stop c.interval =
      if Instant.inRange (interval * Instant.perMillisecond) then
        .ok ((Grid.counts start stop (interval * Instant.perMillisecond)).map .known)
      else .error (.request .durationOutOfRange) := by
  rw [hc.start_eq, hc.stop_eq, hc.interval_eq]
  unfold Grid.build Duration.ofMilliseconds Duration.ofNanoseconds
  dsimp only
  split
  · show (if interval * Instant.perMillisecond = 0 then _ else _) = _
    rw [if_neg (step_pos hc.pos).ne']
    rfl
  · rfl

theorem grid_eq {c : RunConfig α} {start stop interval : Int} (hc : c.Spans start stop interval)
    {grid : List Instant} (h : Grid.build c.start c.stop c.interval = .ok grid) :
    grid = (Grid.counts start stop (interval * Instant.perMillisecond)).map .known := by
  rw [build_eq hc] at h
  split at h
  · cases h; rfl
  · cases h

/-- Each token that is needed is read from its window, unless it has no samples. -/
theorem lookup_usable {o : Oracle α} {wanted : List String} {start stop : Instant} {v : Value α}
    {g : Option Series.Granularity} (hg : Oracle.granularity? v = .ok g)
    (hwindow : ∀ token s, o.series? token = some s → 0 < (Oracle.thinned g (s.sliceAround start stop)).size)
    {fetched : Oracle α} (h : o.prices wanted start stop v = .ok fetched) {token : String} (ht : token ∈ wanted) :
    (usable fetched).lookup token =
      (o.series? token).map fun s => Oracle.thinned g (s.sliceAround start stop) := by
  rw [Oracle.prices_eq o wanted start stop hg] at h
  cases h
  unfold usable
  rw [List.filter_eq_self.2, Oracle.lookup_filterMap, if_pos (Block.mem_firstSeen.2 ht)]
  intro p hp
  obtain ⟨token', -, hsome⟩ := List.mem_filterMap.1 hp
  obtain ⟨w, hw, rfl⟩ := Option.map_eq_some_iff.1 hsome
  obtain ⟨s, hs, rfl⟩ := Option.map_eq_some_iff.1 hw
  have := hwindow token' s hs
  simpa [Array.isEmpty_iff_size_eq_zero] using this.ne'

end Simulation

end StrategyLab
