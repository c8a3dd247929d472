/-
Runs in another unit of amount. Capital, holdings and the amounts of all blocks are multiplied by a
positive factor: the run ends the same way, its blocks have the same flags at every step, and its
account, equity and trades are those of the old run multiplied by the factor (`run_scaled`).

A report does not tell what the blocks of a step did, so the steps are also taken with a record of it,
which changes nothing else (`recorded_report`).
-/
import StrategyLab.Proofs.Block.Scaled
import StrategyLab.Proofs.Metrics
import StrategyLab.Proofs.Simulation.Prefix

namespace StrategyLab

namespace Simulation

/-! ## Steps on record -/

section

variable {α : Type} [Scalar α]

/-- What the blocks do at an instant with prices for all needed tokens. -/
def executed (blocks : List (Block α)) (s : State α) (t : Instant) (prices : List (String × α)) :
    Except (Fault α) (SequenceRun α) := do
  let days ← daysSince s.lastStep t
  pure (SequenceRun.execute blocks
    { timestamp := t, prices := prices.map fun (token, price) => (token, .real price),
      history := extendHistory s.history prices } (s.ledger.accrueInterest (.real days)).2)

/-- The state after what the blocks did. -/
def State.next (s : State α) (t : Instant) (prices : List (String × α)) (done : SequenceRun α) : State α :=
  let quotes : Quotes α := prices.map fun (token, price) => (token, .real price)
  { s with
    ledger := done.ledger, history := extendHistory s.history prices, curve := (t, done.ledger.equity quotes) :: s.curve
    initialEquity := some (s.initialEquity.getD (s.ledger.equity quotes)), lastStep := some t }

/-- What the blocks did at each executed step, in order. -/
abbrev Record (α : Type) := List (Instant × SequenceRun α)

/-- One step of a run, on record. -/
def recordedStep (blocks : List (Block α)) (oracle : Oracle α) (baseCurrency : String) (needed : List String)
    (s : State α × Record α) (t : Instant) : Except (Fault α) (State α × Record α) := do
  let prices ← stepPrices oracle baseCurrency t needed
  if prices.length < needed.length then pure ({ s.1 with skipped := s.1.skipped + 1 }, s.2)
  else
    let done ← executed blocks s.1 t prices
    match done.fault with
    | some f => throw f
    | none => pure (s.1.next t prices done, s.2 ++ [(t, done)])

/-- A run with its record. -/
def recorded (blocks : List (Block α)) (oracle : Oracle α) (c : RunConfig α) :
    Except (Fault α) (Report α × Record α) := do
  let tokens ← strategyTokens blocks
  let needed := neededTokens c tokens
  let fetched ← oracle.prices needed c.start c.stop c.granularity
  if (usable fetched).isEmpty then throw (.data (.nothingFetched needed))
  let ledger ← openLedger c.capital c.baseCurrency c.holdings
  let grid ← Grid.build c.start c.stop c.interval
  let final ← grid.foldlM (recordedStep blocks (usable fetched) c.baseCurrency needed) (initialState ledger needed, [])
  let r ← report c final.1
  pure (r, final.2)

theorem executeStep_eq (blocks : List (Block α)) (s : State α) (t : Instant) (prices : List (String × α)) :
    executeStep blocks s t prices = executed blocks s t prices >>= fun done =>
      match done.fault with
      | some f => throw f
      | none => pure (s.next t prices done) := by
  unfold executeStep executed
  cases daysSince (α := α) s.lastStep t <;> rfl

/-- The record does not change the step. -/
theorem recordedStep_state (blocks : List (Block α)) (o : Oracle α) (base : String) (needed : List String)
    (s : State α × Record α) (t : Instant) :
    Agree Eq (fun s' s₁ => s' = s₁.1) (step blocks o base needed s.1 t) (recordedStep blocks o base needed s t) := by
  have hrefl : ∀ f : Fault α, f = f := fun _ => rfl
  unfold step recordedStep
  refine Agree.bind_eq (.of_eq hrefl rfl) fun prices => ?_
  split
  · exact .ok rfl
  · rw [executeStep_eq]
    refine Agree.bind_eq (.of_eq hrefl rfl) fun done => ?_
    cases done.fault with
    | some f => exact .error rfl
    | none => exact .ok rfl

theorem recordedSteps_state (blocks : List (Block α)) (o : Oracle α) (base : String) (needed : List String)
    (grid : List Instant) (s : State α × Record α) :
    Agree Eq (fun s' s₁ => s' = s₁.1) (grid.foldlM (step blocks o base needed) s.1)
      (grid.foldlM (recordedStep blocks o base needed) s) := by
  refine Agree.foldlM (fun s' s₁ t hs => ?_) grid rfl
  subst hs
  exact recordedStep_state blocks o base needed s₁ t

/-- The record does not change the run. -/
theorem recorded_report (blocks : List (Block α)) (o : Oracle α) (c : RunConfig α) :
    Agree Eq (fun r r₁ => r = r₁.1) (run blocks o c) (recorded blocks o c) := by
  have hrefl : ∀ f : Fault α, f = f := fun _ => rfl
  unfold run recorded
  refine Agree.bind_eq (.of_eq hrefl rfl) fun tokens => Agree.bind_eq (.of_eq hrefl rfl) fun fetched => ?_
  show Agree _ _ (if (usable fetched).isEmpty then _ else _) (if (usable fetched).isEmpty then _ else _)
  split
  · exact .error rfl
  · refine Agree.bind_eq (.of_eq hrefl rfl) fun l => Agree.bind_eq (.of_eq hrefl rfl) fun grid => ?_
    refine (recordedSteps_state blocks _ _ _ grid (initialState l _, [])).bind fun s s₁ hs => ?_
    subst hs
    cases report c s₁.1 with
    | ok r => exact .ok rfl
    | error f => exact .error rfl

/-- The equity that the return of a run is measured from. -/
def baseEquity (c : RunConfig α) (s : State α) : α :=
  match s.initialEquity with
  | some x => if x == 0.0 then c.capital.value else x
  | none => c.capital.value

theorem report_eq (c : RunConfig α) (s : State α) : report c s =
    if s.curve.reverse.isEmpty then .error (.data .noUsableStep)
    else spanDays s.curve.reverse >>= fun days => .ok
      { metrics := Metrics.compute (s.curve.reverse.map (·.2)) s.ledger.trades (baseEquity c s) days
        curve := s.curve.reverse, trades := s.ledger.trades, skipped := s.skipped } := rfl

end

/-! ## Runs in another unit -/

end Simulation

/-- A configuration in another unit. -/
def RunConfig.scaled [ExactArithmetic] (k : ℚ) (c : RunConfig ℚ) : RunConfig ℚ :=
  { c with capital := .real (k * c.capital.value), holdings := c.holdings.map fun h => (h.1, h.2.scaled k) }

/-- A report in another unit. -/
def Report.scaled [ExactArithmetic] (k : ℚ) (r : Report ℚ) : Report ℚ :=
  { r with
    metrics := r.metrics.scaled k, curve := r.curve.map fun p => (p.1, k * p.2), trades := r.trades.map (Trade.scaled k) }

namespace Simulation

/-- A state in another unit. -/
def State.scaled (k : ℚ) (s : State ℚ) : State ℚ :=
  { s with
    ledger := s.ledger.scaled k, curve := s.curve.map fun p => (p.1, k * p.2)
    initialEquity := s.initialEquity.map (k * ·) }

variable [ExactArithmetic]

/-- Records of the same steps at the same instants, in two units. -/
def Record.Scales (k : ℚ) (r r' : Record ℚ) : Prop :=
  List.Forall₂ (fun x x' => x.1 = x'.1 ∧ SequenceRun.Scales k x.2 x'.2) r r'

/-! ### Tokens -/

theorem tokens_kept (k : ℚ) (b : Block ℚ) : (b.scaled k).tokens = b.tokens := by
  have hnamed : ∀ name ∈ Block.tokenParams, (b.scaled k).param? name = b.param? name := fun name hname =>
    Block.param?_kept k b (by revert name; decide)
  unfold Block.tokens
  rw [Block.param?_kept k b (by decide)]
  rw [List.filterMap_congr fun name hname => by rw [hnamed name hname]]

theorem strategyTokens_kept (k : ℚ) (blocks : List (Block ℚ)) :
    strategyTokens (blocks.map (Block.scaled k)) = strategyTokens blocks := by
  have hunknown : ((blocks.map (Block.scaled k)).filter fun b => b.kind?.isNone).map (·.kind) =
      (blocks.filter fun b => b.kind?.isNone).map (·.kind) := by
    rw [List.filter_map, List.map_map]
    rfl
  have htokens : Block.referencedTokens (blocks.map (Block.scaled k)) = Block.referencedTokens blocks := by
    unfold Block.referencedTokens
    rw [List.flatMap_map]
    simp only [tokens_kept]
  unfold strategyTokens
  rw [List.isEmpty_map, hunknown, htokens]

theorem neededTokens_kept (k : ℚ) (c : RunConfig ℚ) (tokens : List String) :
    neededTokens (c.scaled k) tokens = neededTokens c tokens := by
  unfold neededTokens RunConfig.scaled
  simp only [List.map_map]
  rfl

/-! ### The account at the start -/

theorem toReal_scaled (k : ℚ) (v : Value ℚ) : (v.scaled k).toReal = v.toReal.map (k * ·) := by
  unfold Value.scaled
  split
  · rename_i x hx
    rw [hx]
    rfl
  · rename_i e he
    rw [he]
    rfl

section

variable {k : ℚ} (hk : 0 < k)

include hk

theorem start_scaled (capital : Num ℚ) (base : String) :
    Ledger.start (.real (k * capital.value)) base = (Ledger.start capital base).map (Ledger.scaled k) := by
  have hsign : (Num.real (k * capital.value)).isAtMost (.whole 0) = capital.isAtMost (.whole 0) := by
    have hzero : (Num.whole 0 : Num ℚ).value = 0.0 := by
      rw [Num.value_whole]
      norm_num
    rw [Bool.eq_iff_iff, Num.isAtMost_iff, Num.isAtMost_iff, hzero]
    exact scaled_nonpos_iff hk
  unfold Ledger.start Ledger.scalarOf
  rw [hsign, Num.value?_exact, Num.value?_exact]
  split <;> rfl

theorem creditHolding_scaled (l : Ledger ℚ) (holding : Key ℚ × Value ℚ) :
    Agree Fault.Same (fun l' l₁ => l₁ = l'.scaled k) (creditHolding l holding)
      (creditHolding (l.scaled k) (holding.1, holding.2.scaled k)) := by
  unfold creditHolding
  rw [toReal_scaled]
  cases holding.2.toReal with
  | error e => exact .error (.refl _)
  | ok x =>
    show Agree _ _ (liftM (l.credit holding.1.shown (.real x)) : Except (Fault ℚ) _)
      (liftM ((l.scaled k).credit holding.1.shown (.real (k * x))) : Except (Fault ℚ) _)
    rw [Ledger.credit_real, Ledger.credit_real, Action.isNegative_scaled hk, Ledger.gain_scaled]
    split
    · exact .error ⟨rfl, rfl⟩
    · exact .ok rfl

theorem openLedger_scaled (c : RunConfig ℚ) :
    Agree Fault.Same (fun l l' => l' = l.scaled k) (openLedger c.capital c.baseCurrency c.holdings)
      (openLedger (c.scaled k).capital (c.scaled k).baseCurrency (c.scaled k).holdings) := by
  have hstart : Ledger.start (c.scaled k).capital (c.scaled k).baseCurrency =
      (Ledger.start c.capital c.baseCurrency).map (Ledger.scaled k) := start_scaled hk ..
  rw [openLedger_eq, openLedger_eq, hstart]
  cases Ledger.start c.capital c.baseCurrency with
  | error e => exact .error (.refl _)
  | ok l =>
    show Agree Fault.Same _ (c.holdings.foldlM creditHolding l)
      ((c.holdings.map fun h => (h.1, h.2.scaled k)).foldlM creditHolding (l.scaled k))
    rw [List.foldlM_map]
    refine Agree.foldlM (fun l l' holding hl => ?_) c.holdings rfl
    rw [hl]
    exact creditHolding_scaled hk l holding

/-! ### Steps -/

theorem executed_scaled (blocks : List (Block ℚ)) (s : State ℚ) (t : Instant) (prices : List (String × ℚ)) :
    Agree Fault.Same (SequenceRun.Scales k) (executed blocks s t prices)
      (executed (blocks.map (Block.scaled k)) (s.scaled k) t prices) := by
  unfold executed
  refine Agree.bind_eq (Agree.same (daysSince s.lastStep t)) fun days => .ok ?_
  show SequenceRun.Scales k _ (SequenceRun.execute _ _ ((s.ledger.scaled k).accrueInterest (.real days)).2)
  rw [Ledger.accrueInterest_scaled]
  exact SequenceRun.execute_scaled hk _ blocks _

omit hk in
theorem next_scaled (s : State ℚ) (t : Instant) (prices : List (String × ℚ)) {done done' : SequenceRun ℚ}
    (h : done'.ledger = done.ledger.scaled k) : (s.scaled k).next t prices done' = (s.next t prices done).scaled k := by
  unfold State.next State.scaled
  dsimp only
  rw [h, Ledger.equity_scaled, Ledger.equity_scaled]
  cases s.initialEquity <;> rfl

/-- One step in the new unit does what the step in the old one does. -/
theorem recordedStep_scaled (blocks : List (Block ℚ)) (o : Oracle ℚ) (base : String) (needed : List String)
    {s s' : State ℚ × Record ℚ} (hs : s'.1 = s.1.scaled k) (hrecord : Record.Scales k s.2 s'.2) (t : Instant) :
    Agree Fault.Same (fun r r' => r'.1 = r.1.scaled k ∧ Record.Scales k r.2 r'.2) (recordedStep blocks o base needed s t)
      (recordedStep (blocks.map (Block.scaled k)) o base needed s' t) := by
  unfold recordedStep
  rw [hs]
  refine Agree.bind_eq (Agree.same _) fun prices => ?_
  split
  · exact .ok ⟨rfl, hrecord⟩
  · refine (executed_scaled hk blocks s.1 t prices).bind fun done done' hdone => ?_
    have hfault := hdone.fault
    rcases done with ⟨outcomes, fault, l⟩
    rcases done' with ⟨outcomes', fault', l'⟩
    cases hfault with
    | some hsame => exact .error hsame
    | none => exact .ok ⟨next_scaled s.1 t prices hdone.ledger, List.rel_append hrecord (.cons ⟨rfl, hdone⟩ .nil)⟩

theorem recordedSteps_scaled (blocks : List (Block ℚ)) (o : Oracle ℚ) (base : String) (needed : List String)
    (grid : List Instant) {s s' : State ℚ × Record ℚ} (hs : s'.1 = s.1.scaled k) (hrecord : Record.Scales k s.2 s'.2) :
    Agree Fault.Same (fun r r' => r'.1 = r.1.scaled k ∧ Record.Scales k r.2 r'.2)
      (grid.foldlM (recordedStep blocks o base needed) s)
      (grid.foldlM (recordedStep (blocks.map (Block.scaled k)) o base needed) s') :=
  Agree.foldlM (fun _ _ t h => recordedStep_scaled hk blocks o base needed h.1 h.2 t) grid ⟨hs, hrecord⟩

/-! ### Reports -/

omit hk in
theorem spanDays_scaled (k : ℚ) (curve : List (Instant × ℚ)) :
    spanDays (curve.map fun p => (p.1, k * p.2)) = spanDays curve := by
  unfold spanDays
  rw [List.head?_map, List.getLast?_map]
  cases curve.head? <;> cases curve.getLast? <;> rfl

theorem baseEquity_scaled (c : RunConfig ℚ) (s : State ℚ) :
    baseEquity (c.scaled k) (s.scaled k) = k * baseEquity c s := by
  have hequity : (s.scaled k).initialEquity = s.initialEquity.map (k * ·) := rfl
  have hcapital : (c.scaled k).capital.value = k * c.capital.value := rfl
  unfold baseEquity
  rw [hequity, hcapital]
  cases s.initialEquity with
  | none => rfl
  | some x =>
    dsimp only [Option.map_some]
    simp only [beq_iff_eq, scaled_eq_zero_iff hk]
    rw [mul_ite]

theorem report_scaled (c : RunConfig ℚ) (s : State ℚ) :
    Agree Fault.Same (fun r r' => r' = r.scaled k) (report c s) (report (c.scaled k) (s.scaled k)) := by
  have hcurve : (s.scaled k).curve.reverse = s.curve.reverse.map fun p => (p.1, k * p.2) := List.map_reverse.symm
  rw [report_eq, report_eq, hcurve, List.isEmpty_map, spanDays_scaled, baseEquity_scaled hk]
  split
  · exact .error (.refl _)
  · refine Agree.bind_eq (Agree.same _) fun days => .ok ?_
    have hvalues : (s.curve.reverse.map fun p => (p.1, k * p.2)).map (·.2) = (s.curve.reverse.map (·.2)).map (k * ·) := by
      rw [List.map_map, List.map_map]
      rfl
    have htrades : (s.scaled k).ledger.trades = s.ledger.trades.map (Trade.scaled k) := rfl
    rw [hvalues, htrades, Metrics.compute_scaled hk]
    rfl

/-! ### Whole runs -/

theorem recorded_scaled (blocks : List (Block ℚ)) (o : Oracle ℚ) (c : RunConfig ℚ) :
    Agree Fault.Same (fun r r' => r'.1 = r.1.scaled k ∧ Record.Scales k r.2 r'.2) (recorded blocks o c)
      (recorded (blocks.map (Block.scaled k)) o (c.scaled k)) := by
  unfold recorded
  rw [strategyTokens_kept]
  refine Agree.bind_eq (Agree.same _) fun tokens => ?_
  dsimp only
  rw [neededTokens_kept]
  refine Agree.bind_eq (Agree.same (o.prices (neededTokens c tokens) c.start c.stop c.granularity)) fun fetched => ?_
  refine Agree.guard (.refl _) ?_
  refine (openLedger_scaled hk c).bind fun l l' hl => ?_
  subst hl
  refine Agree.bind_eq (Agree.same (Grid.build c.start c.stop c.interval)) fun grid => ?_
  have hstart : (initialState (l.scaled k) (neededTokens c tokens), ([] : Record ℚ)).1 =
      (initialState l (neededTokens c tokens), ([] : Record ℚ)).1.scaled k := rfl
  refine (recordedSteps_scaled hk blocks _ c.baseCurrency _ grid hstart .nil).bind fun s s' hs => ?_
  obtain ⟨hstate, hrecord⟩ := hs
  rw [hstate]
  refine (report_scaled hk c s.1).bind fun r r' hr => ?_
  exact .ok ⟨hr, hrecord⟩

/-- A simulation is homogeneous in its capital. Multiply the capital, the holdings and the amounts of all
blocks by a positive factor: the run returns, or raises a fault of the same kind. If it returns, the
blocks of every executed step have the same flags and leave the old account multiplied by the factor;
the equity, the amounts and the fees of the report are multiplied by it, while times, prices, gas and
all other statistics stay. -/
theorem run_scaled (blocks : List (Block ℚ)) (o : Oracle ℚ) (c : RunConfig ℚ) :
    Agree Fault.Same (fun r r' => r' = r.scaled k) (run blocks o c) (run (blocks.map (Block.scaled k)) o (c.scaled k)) ∧
    Agree Fault.Same (fun r r' => Record.Scales k r.2 r'.2) (recorded blocks o c)
      (recorded (blocks.map (Block.scaled k)) o (c.scaled k)) := by
  have hboth := recorded_scaled hk blocks o c
  refine ⟨?_, hboth.mono (fun _ _ h => h) fun _ _ h => h.2⟩
  have hrun := recorded_report blocks o c
  have hrun' := recorded_report (blocks.map (Block.scaled k)) o (c.scaled k)
  -- both runs are those of their records, which agree
  generalize recorded blocks o c = x at hboth hrun
  generalize recorded (blocks.map (Block.scaled k)) o (c.scaled k) = y at hboth hrun'
  generalize run blocks o c = r at hrun ⊢
  generalize run (blocks.map (Block.scaled k)) o (c.scaled k) = r' at hrun' ⊢
  cases hboth with
  | ok hsame =>
    cases hrun with
    | ok hr =>
      cases hrun' with
      | ok hr' => exact .ok (by rw [hr, hr', hsame.1])
  | error hsame =>
    cases hrun with
    | error he =>
      cases hrun' with
      | error he' => exact .error (by rw [he, he']; exact hsame)

end

end Simulation

/-! ## Purchases of twice the amount -/

namespace Simulation

local instance openPartsOfDoubledRuns : ExactArithmetic := default

/-- Twice the capital makes three purchases of twenty instead of ten. -/
theorem purchases_doubled : (0 : ℚ) < 2 ∧ ∃ r r' : Report ℚ,
    run [etherBought] [("ETH", risingEtherSamples.toArray)] (everyMillisecond 2000000) = .ok r ∧
    run [etherBought.scaled 2] [("ETH", risingEtherSamples.toArray)] ((everyMillisecond 2000000).scaled 2) = .ok r' ∧
    r.trades.map (·.inputAmount) = [10, 10, 10] ∧ r' = r.scaled 2 := by
  have htwo : (0 : ℚ) < 2 := by norm_num
  obtain ⟨r, hr, htens⟩ := ok_of_toOption
    (show (run [etherBought] [("ETH", risingEtherSamples.toArray)]
      (everyMillisecond 2000000)).toOption.map (·.trades.map (·.inputAmount)) = some [10, 10, 10] by decide +kernel)
  have hscaled := (run_scaled htwo [etherBought] [("ETH", risingEtherSamples.toArray)] (everyMillisecond 2000000)).1
  rw [List.map_cons, List.map_nil, hr] at hscaled
  generalize run [etherBought.scaled 2] _ _ = doubled at hscaled ⊢
  cases hscaled with
  | @ok _ r' hsame => exact ⟨htwo, r, r', hr, rfl, htens, hsame⟩

end Simulation

end StrategyLab
