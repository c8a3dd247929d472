/-
Runs of strategies that read alike, with configurations that are alike, have the same report, or both
raise a fault (`run_alike`). The order in which tokens, holdings and allocations are given makes no
difference in exact arithmetic.
-/
import StrategyLab.Proofs.Block.Alike
import StrategyLab.Proofs.Simulation.Steps

namespace StrategyLab

/-! ## Tokens -/

theorem Object.names_alike {α : Type} [Scalar α] {fs gs : Object α} (h : (told fs).Perm (told gs)) (name : String) :
    (∃ f ∈ fs, f.1.shown = name) ↔ ∃ g ∈ gs, g.1.shown = name := by
  have hnames : ∀ fields : Object α, (∃ f ∈ fields, f.1.shown = name) ↔
      name ∈ (told fields).map fun f => f.1.shown := fun fields => by simp [told]
  rw [hnames, hnames, (h.map _).mem_iff]

namespace Block

variable {α : Type} [Scalar α]

/-- Names that occur in two lists, each once, come in two orders. -/
theorem firstSeen_perm {names names' : List String} (h : ∀ name, name ∈ names ↔ name ∈ names') :
    (firstSeen names).Perm (firstSeen names') := by
  refine (List.perm_ext_iff_of_nodup (nodup_firstSeen _) (nodup_firstSeen _)).2 fun name => ?_
  rw [mem_firstSeen, mem_firstSeen]
  exact h name

/-- A token is named by one of the params for it, or it is in the target allocation. -/
theorem mem_tokens {b : Block α} {token : String} : token ∈ b.tokens ↔
    token ∈ tokenParams.filterMap (fun name => ((b.param? name).filter Value.isPresent).map Value.shown) ∨
      ∃ fields, (b.param? "target_allocation").bind Value.fields? = some fields ∧ ∃ f ∈ fields, f.1.shown = token := by
  unfold tokens
  generalize b.param? "target_allocation" = v
  cases v with
  | none => simp
  | some v => cases v <;> simp [Value.fields?]

theorem tokens_alike {b b' : Block α} (h : b.ReadAlike b') (token : String) : token ∈ b.tokens ↔ token ∈ b'.tokens := by
  have hnamed : ∀ name ∈ tokenParams, b.param? name = b'.param? name := fun name hname =>
    h.texts name (List.mem_append_left _ hname)
  have hparams : tokenParams.filterMap (fun name => ((b.param? name).filter Value.isPresent).map Value.shown) =
      tokenParams.filterMap fun name => ((b'.param? name).filter Value.isPresent).map Value.shown :=
    List.filterMap_congr fun name hname => by rw [hnamed name hname]
  rw [mem_tokens, mem_tokens, hparams]
  refine or_congr_right ?_
  rcases h.param? "target_allocation" with ⟨hnone, hnone'⟩ | ⟨v, v', hv, hv', halike⟩
  · rw [hnone, hnone']
  rw [hv, hv']
  rcases halike.objects with ⟨fs, gs, rfl, rfl, hperm⟩ | ⟨hnone, hnone'⟩
  · simp only [Option.bind_some, Value.fields?, Option.some.injEq, exists_eq_left']
    exact Object.names_alike hperm token
  · simp only [Option.bind_some, hnone, hnone']

theorem referencedTokens_alike {bs bs' : List (Block α)} (h : List.Forall₂ ReadAlike bs bs') (token : String) :
    token ∈ referencedTokens bs ↔ token ∈ referencedTokens bs' := by
  unfold referencedTokens
  rw [mem_firstSeen, mem_firstSeen]
  induction h with
  | nil => exact Iff.rfl
  | cons hb _ ih =>
    rw [List.flatMap_cons, List.flatMap_cons, List.mem_append, List.mem_append, ih, tokens_alike hb]

end Block

/-! ## Configurations -/

variable {α : Type} [Scalar α]

/-- Configurations that JSON text cannot tell apart. -/
structure RunConfig.Alike (c c' : RunConfig α) : Prop where
  start : c.start = c'.start
  stop : c.stop = c'.stop
  capital : c.capital.value = c'.capital.value
  interval : c.interval = c'.interval
  baseCurrency : c.baseCurrency = c'.baseCurrency
  holdings : (Object.told c.holdings).Perm (Object.told c'.holdings)
  granularity : c.granularity.Alike c'.granularity

namespace Simulation

/-- What a strategy is refused for, or the tokens it refers to. -/
theorem strategyTokens_eq (bs : List (Block α)) : strategyTokens bs =
    if bs.isEmpty then .error (.structural .emptyStrategy)
    else if !((bs.map (·.kind)).filter fun kind => (BlockKind.ofName? kind).isNone).isEmpty then
      .error (.structural (.unknownBlockKinds ((Block.firstSeen
        ((bs.map (·.kind)).filter fun kind => (BlockKind.ofName? kind).isNone)).mergeSort (· ≤ ·))))
    else if (Block.referencedTokens bs).isEmpty then .error (.structural .noTokens)
    else .ok (Block.referencedTokens bs) := by
  have hunknown : (bs.map (·.kind)).filter (fun kind => (BlockKind.ofName? kind).isNone) =
      (bs.filter fun b => b.kind?.isNone).map (·.kind) := by
    rw [List.filter_map]
    rfl
  rw [hunknown]
  rfl

theorem strategyTokens_alike {bs bs' : List (Block α)} (h : List.Forall₂ Block.ReadAlike bs bs') :
    Agree anyCause (fun tokens tokens' => ∀ token, token ∈ tokens ↔ token ∈ tokens') (strategyTokens bs)
      (strategyTokens bs') := by
  have hkinds : bs.map (·.kind) = bs'.map (·.kind) := map_eq_of_forall₂ h fun _ _ hb => hb.kind
  have hempty : bs.isEmpty = bs'.isEmpty := by
    rw [← List.isEmpty_map (l := bs), hkinds, List.isEmpty_map]
  have htokens := Block.referencedTokens_alike h
  have hnone : (Block.referencedTokens bs).isEmpty = (Block.referencedTokens bs').isEmpty := by
    rw [Bool.eq_iff_iff, List.isEmpty_iff, List.isEmpty_iff, List.eq_nil_iff_forall_not_mem,
      List.eq_nil_iff_forall_not_mem]
    simp only [htokens]
  rw [strategyTokens_eq, strategyTokens_eq, hkinds, hempty, hnone]
  split
  · exact .error trivial
  split
  · exact .error trivial
  split
  · exact .error trivial
  · exact .ok htokens

theorem neededTokens_alike {c c' : RunConfig α} (h : c.Alike c') {tokens tokens' : List String}
    (htokens : ∀ token, token ∈ tokens ↔ token ∈ tokens') :
    (neededTokens c tokens).Perm (neededTokens c' tokens') := by
  unfold neededTokens
  refine Block.firstSeen_perm fun name => ?_
  have hholdings := Object.names_alike h.holdings name
  rw [List.cons_append, List.cons_append, List.mem_cons, List.mem_cons, List.mem_append, List.mem_append, List.mem_map,
    List.mem_map, h.baseCurrency, htokens]
  exact or_congr_right (or_congr_left hholdings)

/-! ## Prices -/

theorem granularity?_alike {v w : Value α} (h : v.Alike w) :
    Agree anyCause Eq (Oracle.granularity? v) (Oracle.granularity? w) := by
  rcases h.cases with rfl | ⟨xs, ys, hxs, hys, -⟩ | ⟨fs, gs, rfl, rfl⟩
  · exact .of_eq (fun _ => trivial) rfl
  · cases hxs <;> cases hys <;> exact .error trivial
  · exact .error trivial

theorem fetched_names {o : Oracle α} {wanted : List String} {start stop : Instant} {v : Value α} {fetched : Oracle α}
    (h : o.prices wanted start stop v = .ok fetched) : (fetched.map (·.1)).Nodup := by
  refine (Block.nodup_firstSeen wanted).sublist (filterMapM_names (fun token b hb => ?_) h)
  cases hs : o.series? token with
  | none =>
    rw [hs] at hb
    cases hb
  | some series =>
    rw [hs] at hb
    obtain ⟨part, -, hb⟩ := bind_ok hb
    cases hb
    rfl

theorem fetched_alike (o : Oracle α) {wanted wanted' : List String} (hwanted : wanted.Perm wanted')
    (start stop : Instant) {v w : Value α} (h : v.Alike w) :
    Agree anyCause (fun fetched fetched' => fetched.Perm fetched' ∧ (fetched.map (·.1)).Nodup)
      (o.prices wanted start stop v) (o.prices wanted' start stop w) := by
  have hnames : (Block.firstSeen wanted).Perm (Block.firstSeen wanted') := Block.firstSeen_perm fun _ => hwanted.mem_iff
  refine Agree.and ?_ fun fetched h => fetched_names h
  refine (Agree.filterMapM_congr (fun token => ?_) _).trans (Agree.filterMapM_perm _ hnames)
    (fun _ _ _ _ _ => trivial) fun _ _ _ heq h => heq ▸ h
  cases o.series? token with
  | none => exact .ok rfl
  | some series =>
    refine Agree.bind_eq ?_ fun part => .ok rfl
    unfold Oracle.window
    refine (granularity?_alike h).bind_eq fun g => ?_
    cases g <;> exact .ok rfl

theorem stepPrices_names {o : Oracle α} {base : String} {t : Instant} {needed : List String} (hneeded : needed.Nodup)
    {prices : List (String × α)} (h : stepPrices o base t needed = .ok prices) : (prices.map (·.1)).Nodup :=
  hneeded.sublist (stepPrices_sublist h)

theorem stepPrices_alike {o o' : Oracle α} (ho : ∀ token, o.lookup token = o'.lookup token) (base : String) (t : Instant)
    {needed needed' : List String} (hneeded : needed.Perm needed') (hnodup : needed.Nodup) :
    Agree anyCause (fun prices prices' => prices.Perm prices' ∧ (prices.map (·.1)).Nodup)
      (stepPrices o base t needed) (stepPrices o' base t needed') := by
  have hsame : stepPrices o base t needed = stepPrices o' base t needed := stepPrices_congr fun token _ => by
    unfold stepPrice
    rw [ho]
  refine Agree.and ?_ fun prices h => stepPrices_names hnodup h
  rw [hsame]
  exact Agree.filterMapM_perm _ hneeded

omit [Scalar α] in
theorem lookup_extendHistory (prices : List (String × α)) (token : String) : ∀ history : List (String × List α),
    (extendHistory history prices).lookup token =
      (history.lookup token).map fun seen => seen ++ (prices.lookup token).toList
  | [] => rfl
  | (t, seen) :: rest => by
    have ih := lookup_extendHistory prices token rest
    have hcons : extendHistory ((t, seen) :: rest) prices =
        (t, seen ++ (prices.lookup t).toList) :: extendHistory rest prices := by
      unfold extendHistory
      rw [List.map_cons]
      dsimp only
      cases prices.lookup t <;> simp
    rw [hcons, List.lookup_cons, List.lookup_cons]
    by_cases h : token = t
    · subst h
      simp
    · rw [beq_eq_false_iff_ne.2 h]
      exact ih

/-! ## Steps -/

section

variable [ExactArithmetic]

/-- States of a run that differ in the order of balances and tokens only. -/
structure State.Alike (s s' : State ℚ) : Prop where
  ledger : s.ledger.Alike s'.ledger
  history : ∀ token, s.history.lookup token = s'.history.lookup token
  curve : s.curve = s'.curve
  skipped : s.skipped = s'.skipped
  initialEquity : s.initialEquity = s'.initialEquity
  lastStep : s.lastStep = s'.lastStep

variable {bs bs' : List (Block ℚ)}

theorem executeStep_alike (hbs : List.Forall₂ Block.ReadAlike bs bs') {s s' : State ℚ} (hs : s.Alike s') (t : Instant)
    {prices prices' : List (String × ℚ)} (hprices : prices.Perm prices') (hnames : (prices.map (·.1)).Nodup) :
    Agree anyCause State.Alike (executeStep bs s t prices) (executeStep bs' s' t prices') := by
  have hlookup := lookup_perm hprices hnames
  have hquotes : ∀ token, (prices.map fun p => (p.1, Num.real p.2)).lookup token =
      (prices'.map fun p => (p.1, Num.real p.2)).lookup token :=
    lookup_perm (hprices.map _) (by rw [List.map_map]; exact hnames)
  have hhistory : ∀ token, (extendHistory s.history prices).lookup token =
      (extendHistory s'.history prices').lookup token := fun token => by
    rw [lookup_extendHistory, lookup_extendHistory, hs.history, hlookup]
  unfold executeStep
  rw [hs.lastStep]
  refine Agree.bind_eq (.of_eq (fun _ => trivial) rfl) fun days => ?_
  have hgrown := hs.ledger.accrueInterest (.real days)
  have hmarket : Market.Alike (α := ℚ)
      ⟨t, prices.map fun p => (p.1, Num.real p.2), extendHistory s.history prices⟩
      ⟨t, prices'.map fun p => (p.1, Num.real p.2), extendHistory s'.history prices'⟩ :=
    ⟨rfl, hquotes, hhistory⟩
  have hnone : (none : Option (Outcome ℚ)).map (·.fired) = (none : Option (Outcome ℚ)).map (·.fired) := rfl
  obtain ⟨hfault, hledger⟩ := SequenceRun.after_alike hmarket hbs hgrown hnone
  unfold SequenceRun.execute
  dsimp only
  generalize SequenceRun.after _ none bs _ = r at hfault hledger ⊢
  generalize SequenceRun.after _ none bs' _ = r' at hfault hledger ⊢
  cases hf : r.fault with
  | some f =>
    rw [hf] at hfault
    obtain ⟨f', hf'⟩ := Option.isSome_iff_exists.1 hfault.symm
    rw [hf']
    exact .error trivial
  | none =>
    rw [hf] at hfault
    have hf' : r'.fault = none := Option.not_isSome_iff_eq_none.1 (by rw [← hfault]; decide)
    rw [hf']
    refine .ok ⟨hledger, hhistory, ?_, hs.skipped, ?_, rfl⟩
    · dsimp only
      rw [hs.curve]
      exact congrArg (fun x => (t, x) :: s'.curve) (hledger.equity hquotes)
    · dsimp only
      rw [hs.initialEquity]
      exact congrArg (fun x => some (s'.initialEquity.getD x)) (hs.ledger.equity hquotes)

theorem step_alike (hbs : List.Forall₂ Block.ReadAlike bs bs') {o o' : Oracle ℚ}
    (ho : ∀ token, o.lookup token = o'.lookup token) (base : String) {needed needed' : List String}
    (hneeded : needed.Perm needed') (hnodup : needed.Nodup) {s s' : State ℚ} (hs : s.Alike s') (t : Instant) :
    Agree anyCause State.Alike (step bs o base needed s t) (step bs' o' base needed' s' t) := by
  unfold step
  refine (stepPrices_alike ho base t hneeded hnodup).bind fun prices prices' hprices => ?_
  obtain ⟨hperm, hnames⟩ := hprices
  rw [hperm.length_eq, hneeded.length_eq]
  split
  · exact .ok ⟨hs.ledger, hs.history, hs.curve, by rw [hs.skipped], hs.initialEquity, hs.lastStep⟩
  · exact executeStep_alike hbs hs t hperm hnames

/-! ## The account at the start -/

theorem start_congr {capital capital' : Num ℚ} (h : capital.value = capital'.value) (base : String) :
    Ledger.start capital base = Ledger.start capital' base := by
  have hsign : capital.isAtMost (.whole 0) = capital'.isAtMost (.whole 0) := by
    rw [Bool.eq_iff_iff, Num.isAtMost_iff, Num.isAtMost_iff, h]
  unfold Ledger.start Ledger.scalarOf
  rw [hsign, Num.value?_exact, Num.value?_exact, h]

/-- A holding that is a number not below zero is credited; any other is refused. -/
theorem creditHolding_cases (holding : Key ℚ × Value ℚ) :
    (∃ x, ∀ l, creditHolding l holding = .ok (l.gain holding.1.shown x)) ∨
      ∀ l, ∃ e, creditHolding l holding = .error e := by
  cases hx : holding.2.toReal with
  | error e =>
    refine .inr fun l => ⟨.value e, ?_⟩
    unfold creditHolding
    rw [hx]
    rfl
  | ok x =>
    have heq : ∀ l, creditHolding l holding = (liftM (l.credit holding.1.shown (.real x)) : Except (Fault ℚ) _) :=
      fun l => by
        unfold creditHolding
        rw [hx]
        rfl
    by_cases hneg : (Num.real x).isLess (.whole 0) = true
    · refine .inr fun l => ⟨.ledger (.negativeCredit holding.1.shown (.real x)), ?_⟩
      rw [heq, Ledger.credit_real, if_pos hneg]
      rfl
    · refine .inl ⟨x, fun l => ?_⟩
      rw [heq, Ledger.credit_real, if_neg hneg]
      rfl

theorem creditHolding_alike {l l' : Ledger ℚ} (hl : l.Alike l') (holding : Key ℚ × Value ℚ) :
    Agree anyCause Ledger.Alike (creditHolding l holding) (creditHolding l' holding) := by
  rcases creditHolding_cases holding with ⟨x, hcredit⟩ | hrefused
  · rw [hcredit, hcredit]
    exact .ok (hl.gain _ x)
  · obtain ⟨e, he⟩ := hrefused l
    obtain ⟨e', he'⟩ := hrefused l'
    rw [he, he']
    exact .error trivial

theorem credits_alike (holdings : Object ℚ) {l l' : Ledger ℚ} (hl : l.Alike l') :
    Agree anyCause Ledger.Alike (holdings.foldlM creditHolding l) (holdings.foldlM creditHolding l') :=
  Agree.foldlM (fun _ _ holding hl => creditHolding_alike hl holding) holdings hl

/-- Holdings come to the same account in every order. -/
theorem credits_perm {holdings holdings' : Object ℚ} (h : holdings.Perm holdings') : ∀ {l l' : Ledger ℚ}, l.Alike l' →
    Agree anyCause Ledger.Alike (holdings.foldlM creditHolding l) (holdings'.foldlM creditHolding l') := by
  induction h with
  | nil => exact fun hl => .ok hl
  | cons holding _ ih =>
    intro l l' hl
    rw [List.foldlM_cons, List.foldlM_cons]
    exact (creditHolding_alike hl holding).bind fun _ _ hl => ih hl
  | swap holding other rest =>
    intro l l' hl
    rw [List.foldlM_cons, List.foldlM_cons]
    rcases creditHolding_cases holding with ⟨x, hcredit⟩ | hrefused
    · rcases creditHolding_cases other with ⟨y, hcredit'⟩ | hrefused'
      · rw [hcredit, hcredit']
        show Agree anyCause Ledger.Alike ((holding :: rest).foldlM creditHolding (l.gain other.1.shown y))
          ((other :: rest).foldlM creditHolding (l'.gain holding.1.shown x))
        rw [List.foldlM_cons, List.foldlM_cons, hcredit, hcredit']
        exact credits_alike rest (hl.gain_comm _ _ y x)
      · obtain ⟨e, he⟩ := hrefused' l
        obtain ⟨e', he'⟩ := hrefused' (l'.gain holding.1.shown x)
        rw [he, hcredit]
        show Agree anyCause Ledger.Alike (.error e) ((other :: rest).foldlM creditHolding (l'.gain holding.1.shown x))
        rw [List.foldlM_cons, he']
        exact .error trivial
    · obtain ⟨e', he'⟩ := hrefused l'
      rw [he']
      rcases creditHolding_cases other with ⟨y, hcredit'⟩ | hrefused'
      · obtain ⟨e, he⟩ := hrefused (l.gain other.1.shown y)
        rw [hcredit']
        show Agree anyCause Ledger.Alike ((holding :: rest).foldlM creditHolding (l.gain other.1.shown y)) (.error e')
        rw [List.foldlM_cons, he]
        exact .error trivial
      · obtain ⟨e, he⟩ := hrefused' l
        rw [he]
        exact .error trivial
  | trans _ _ ih ih' =>
    intro l l' hl
    exact (ih hl).trans (ih' (.refl hl.distinct')) (fun _ _ _ _ _ => trivial) fun _ _ _ h h' => h.trans h'

theorem toReal_canonical (v : Value ℚ) : Agree anyCause Eq v.canonical.toReal v.toReal := by
  rcases v.shape with ⟨items, hitems⟩ | ⟨fields, rfl⟩ | ⟨hsame, -, -⟩
  · rw [hitems.canonical]
    cases hitems <;> exact .error trivial
  · rw [Value.canonical_object]
    exact .error trivial
  · rw [hsame]
    exact .of_eq (fun _ => trivial) rfl

theorem creditHolding_told (l : Ledger ℚ) (holding : Key ℚ × Value ℚ) :
    Agree anyCause Eq (creditHolding l holding) (creditHolding l (holding.1, holding.2.canonical)) := by
  have hread := toReal_canonical holding.2
  unfold creditHolding
  dsimp only
  generalize holding.2.canonical.toReal = r at hread ⊢
  generalize holding.2.toReal = r' at hread ⊢
  cases hread with
  | ok heq =>
    rw [heq]
    exact .of_eq (fun _ => trivial) rfl
  | error _ => exact .error trivial

theorem credits_told (holdings : Object ℚ) : ∀ l : Ledger ℚ,
    Agree anyCause Eq (holdings.foldlM creditHolding l) ((Object.told holdings).foldlM creditHolding l) := by
  induction holdings with
  | nil => exact fun l => .ok rfl
  | cons holding rest ih =>
    intro l
    have hcons : Object.told (holding :: rest) = (holding.1, holding.2.canonical) :: Object.told rest := rfl
    rw [hcons, List.foldlM_cons, List.foldlM_cons]
    exact (creditHolding_told l holding).bind_eq ih

/-- Accounts opened with holdings that are alike are alike. -/
theorem openLedger_alike {c c' : RunConfig ℚ} (h : c.Alike c') :
    Agree anyCause Ledger.Alike (openLedger c.capital c.baseCurrency c.holdings)
      (openLedger c'.capital c'.baseCurrency c'.holdings) := by
  rw [openLedger_eq, openLedger_eq, h.baseCurrency, start_congr h.capital]
  cases hstart : Ledger.start c'.capital c'.baseCurrency with
  | error e => exact .error trivial
  | ok l₀ =>
    have hl : l₀.Alike l₀ := .refl (Ledger.start_wf hstart).tokens
    show Agree anyCause Ledger.Alike (c.holdings.foldlM creditHolding l₀) (c'.holdings.foldlM creditHolding l₀)
    have htrivial : ∀ e f g : Fault ℚ, anyCause e f → anyCause f g → anyCause e g := fun _ _ _ _ _ => trivial
    have hfirst := (credits_told c.holdings l₀).trans (credits_perm h.holdings hl) htrivial fun _ _ _ heq h => heq ▸ h
    exact hfirst.trans (credits_told c'.holdings l₀).symm_eq htrivial fun _ _ _ h heq => heq ▸ h

/-! ## Whole runs -/

omit [ExactArithmetic] in
theorem initialState_alike {l l' : Ledger ℚ} (hl : l.Alike l') {needed needed' : List String}
    (hneeded : needed.Perm needed') (hnodup : needed.Nodup) :
    (initialState l needed).Alike (initialState l' needed') := by
  have hnames : (needed.map fun token => (token, ([] : List ℚ))).map (·.1) = needed := by
    rw [List.map_map]
    exact List.map_id needed
  exact ⟨hl, lookup_perm (hneeded.map _) (hnames.symm ▸ hnodup), rfl, rfl, rfl, rfl⟩

theorem report_alike {c c' : RunConfig ℚ} (h : c.Alike c') {s s' : State ℚ} (hs : s.Alike s') :
    report c s = report c' s' := by
  unfold report
  rw [hs.curve, hs.initialEquity, hs.ledger.trades, hs.skipped, h.capital]

/-- Strategies that read alike, with configurations that are alike, have the same report on the same price
data, or both raise a fault. -/
theorem run_alike (hbs : List.Forall₂ Block.ReadAlike bs bs') (o : Oracle ℚ) {c c' : RunConfig ℚ} (h : c.Alike c') :
    Agree anyCause Eq (run bs o c) (run bs' o c') := by
  unfold run
  refine (strategyTokens_alike hbs).bind fun tokens tokens' htokens => ?_
  have hneeded := neededTokens_alike h htokens
  rw [← h.start, ← h.stop, ← h.interval, ← h.baseCurrency]
  refine (fetched_alike o hneeded c.start c.stop h.granularity).bind fun fetched fetched' hfetched => ?_
  obtain ⟨hperm, hnames⟩ := hfetched
  have husable : (usable fetched).Perm (usable fetched') := hperm.filter _
  have hdistinct : ((usable fetched).map (·.1)).Nodup := hnames.sublist (List.filter_sublist.map _)
  have hempty : (usable fetched).isEmpty = (usable fetched').isEmpty := husable.isEmpty_eq
  unfold usable at husable hdistinct hempty
  dsimp only
  rw [hempty]
  split
  · exact .error trivial
  · have hledger := openLedger_alike h
    rw [← h.baseCurrency] at hledger
    refine hledger.bind fun l l' hl => ?_
    refine Agree.bind_eq (.of_eq (fun _ => trivial) rfl) fun grid => ?_
    have hnodup : (neededTokens c tokens).Nodup := Block.nodup_firstSeen _
    refine (Agree.foldlM (fun s s' t hs => step_alike hbs (lookup_perm husable hdistinct) c.baseCurrency hneeded
      hnodup hs t) grid (initialState_alike hl hneeded hnodup)).bind fun s s' hs => ?_
    exact .of_eq (fun _ => trivial) (report_alike h hs)

end

end Simulation

end StrategyLab
