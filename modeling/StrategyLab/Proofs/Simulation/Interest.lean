/-
Interest is neither lost nor counted twice. From the step that opens a position on, as long as no block takes
from it, its amount grows by one factor for each executed step, for the time since the executed step before
it; these times add up to the time since the opening, whatever steps are skipped in between and however short
the last one is (`interest_compounds`).

The induction is over the instants that follow the step (`steps_held`): a skipped one leaves the account and
the last executed instant, and an executed one accrues interest for the time since that instant, after which
its blocks leave the position as it is (`executeStep_held`).
-/
import StrategyLab.Proofs.Block.Positions
import StrategyLab.Proofs.Simulation.Priced

namespace StrategyLab

/-! ## Times and factors -/

namespace Instant

/-- The days from one instant to another. -/
def daysTo (a b : Instant) : ℚ := ((b.count - a.count : Int) : ℚ) / perDay

/-- The days from each of some instants to the one behind it. -/
def gaps : List Instant → List ℚ
  | a :: b :: rest => a.daysTo b :: gaps (b :: rest)
  | _ => []

theorem daysTo_add (a b c : Instant) : a.daysTo b + b.daysTo c = a.daysTo c := by
  unfold daysTo
  push_cast
  ring

/-- The times between instants add up to the time from the first to the last. -/
theorem gaps_sum (a : Instant) (rest : List Instant) : (gaps (a :: rest)).sum = a.daysTo (rest.getLastD a) := by
  induction rest generalizing a with
  | nil => simp [gaps, daysTo]
  | cons b rest ih => rw [gaps, List.sum_cons, ih, List.getLastD_cons, daysTo_add]

theorem daysTo_pos {a b : Instant} (h : a.isBefore b = true) : 0 < a.daysTo b := by
  cases a with
  | missing => cases h
  | known a =>
    cases b with
    | missing => cases h
    | known b =>
      have hlt : a < b := of_decide_eq_true h
      have hgap : (0 : ℚ) < ((b - a : Int) : ℚ) := by exact_mod_cast sub_pos.2 hlt
      exact div_pos hgap (by unfold perDay perSecond; norm_num)

end Instant

/-- A position after the interest of some times, one after the other, at its yearly rate if that is above
zero. -/
def Position.compounded (days : List ℚ) (p : Position ℚ) : Position ℚ :=
  { p with amount := p.amount * if 0 < p.apy then (days.map fun d => 1 + p.apy / 365 * d).prod else 1 }

theorem Position.compounded_nil (p : Position ℚ) : p.compounded [] = p := by
  simp [compounded]

/-- The interest of one time comes before that of the later ones. -/
theorem Position.compounded_cons {d : ℚ} (hd : 0 < d) (rest : List ℚ) (p : Position ℚ) :
    p.compounded (d :: rest) = (p.accrued d).compounded rest := by
  unfold compounded accrued earned
  by_cases hapy : 0 < p.apy
  · simp only [hapy, hd, and_self, if_true, List.map_cons, List.prod_cons]
    congr 1
    ring
  · simp [hapy]

namespace Simulation

section

variable [ExactArithmetic] {blocks : List (Block ℚ)} {o : Oracle ℚ} {base : String} {needed : List String}
  {s s' : State ℚ} {t u : Instant} {prices : List (String × ℚ)} {days : ℚ} {p : Position ℚ}

/-! ## Within a step -/

/-- The account in a step after its interest and so many of its blocks. -/
def stage (blocks : List (Block ℚ)) (s : State ℚ) (t : Instant) (prices : List (String × ℚ)) (days : ℚ)
    (count : Nat) : Ledger ℚ :=
  (stepRun (blocks.take count) s t prices days).ledger

theorem stage_reachable (hl : s.ledger.Reachable) (blocks : List (Block ℚ)) (t : Instant)
    (prices : List (String × ℚ)) (days : ℚ) (count : Nat) : (stage blocks s t prices days count).Reachable := by
  have hgrown : (s.ledger.accrueInterest (.real days)).2.Reachable :=
    hl.becomes (show Ledger.Operates (fun _ => True) _ _ from .accrued s.ledger (.real days)).becomes
  exact hgrown.becomes (SequenceRun.after_becomes _ _ none _)

/-- One more block of a step moves the positions in the way of its kind. -/
theorem stage_moves (hl : s.ledger.Reachable) (hnone : (stepRun blocks s t prices days).fault = none) (count : Nat) :
    ∃ kind, ((∃ b ∈ blocks, b.kind? = some kind) ∨
        stage blocks s t prices days (count + 1) = stage blocks s t prices days count) ∧
      (stage blocks s t prices days count).Moves t kind (stage blocks s t prices days (count + 1)) := by
  cases hb : blocks[count]? with
  | none =>
    -- all blocks are among the earlier ones
    have hlength := List.getElem?_eq_none_iff.1 hb
    have hsame : stage blocks s t prices days (count + 1) = stage blocks s t prices days count := by
      unfold stage
      rw [List.take_of_length_le hlength, List.take_of_length_le (by omega)]
    exact ⟨default, .inr hsame, .same (by rw [hsame])⟩
  | some b =>
    obtain ⟨x, -, hturn⟩ := SequenceRun.turn_at hnone hb
    obtain ⟨kind, hkind, hmoves⟩ := Block.turn_moves (stage_reachable hl blocks t prices days count).wf hturn
    exact ⟨kind, hkind.imp_left fun hk => ⟨b, List.mem_of_getElem? hb, hk⟩, hmoves⟩

/-- A position that no further block takes from stays as it is. -/
theorem stage_kept (hl : s.ledger.Reachable) (hnone : (stepRun blocks s t prices days).fault = none) {i k : Nat}
    (hik : i ≤ k) (hp : p ∈ (stage blocks s t prices days i).positions)
    (hspared : ∀ count, i ≤ count → ¬ Ledger.TakesFrom p.number (stage blocks s t prices days count)
      (stage blocks s t prices days (count + 1))) : p ∈ (stage blocks s t prices days k).positions := by
  induction k, hik using Nat.le_induction with
  | base => exact hp
  | succ k hik ih =>
    obtain ⟨kind, -, hmoves⟩ := stage_moves hl hnone k
    exact hmoves.kept (stage_reachable hl blocks t prices days k).wf ih (hspared k hik)

/-- Blocks other than repayments, withdrawals and exits take from no position. -/
theorem stage_spares (hl : s.ledger.Reachable) (hnone : (stepRun blocks s t prices days).fault = none)
    (hkinds : ∀ b ∈ blocks, ∀ kind, b.kind? = some kind → kind ≠ .repay ∧ kind ≠ .withdraw ∧ kind.category ≠ .exit)
    (number count : Nat) : ¬ Ledger.TakesFrom number (stage blocks s t prices days count)
      (stage blocks s t prices days (count + 1)) := by
  obtain ⟨kind, ⟨b, hb, hk⟩ | hsame, hmoves⟩ := stage_moves hl hnone count
  · obtain ⟨hrepay, hwithdraw, hexit⟩ := hkinds b hb kind hk
    exact hmoves.spares hrepay hwithdraw hexit number
  · rw [hsame]
    exact Ledger.not_takesFrom_self number _

/-- What an executed step leaves: the account after all of its blocks, none of which raises a fault. -/
theorem executeStep_stage (h : executeStep blocks s t prices = .ok s') : ∃ days, daysSince s.lastStep t = .ok days ∧
    (stepRun blocks s t prices days).fault = none ∧
      (∀ count, blocks.length ≤ count → s'.ledger = stage blocks s t prices days count) ∧
      s'.lastStep = some t ∧ s'.curve.map (·.1) = t :: s.curve.map (·.1) := by
  obtain ⟨days, hdays, h⟩ := bind_ok h
  dsimp only at h
  split at h
  · cases h
  · rename_i hnone
    cases h
    refine ⟨days, hdays, hnone, fun count hcount => ?_, rfl, rfl⟩
    unfold stage
    rw [List.take_of_length_le hcount]
    rfl

theorem executeStep_reachable (hl : s.ledger.Reachable) (h : executeStep blocks s t prices = .ok s') :
    s'.ledger.Reachable := by
  obtain ⟨days, -, -, hledger, -⟩ := executeStep_stage h
  rw [hledger _ le_rfl]
  exact stage_reachable hl ..

/-! ## From step to step -/

/-- The interest of a step is that of the time since the last executed one. -/
theorem daysSince_exact (h : u.isBefore t = true) (hdays : daysSince (some u) t = .ok days) : days = u.daysTo t := by
  cases u with
  | missing => cases h
  | known u =>
    cases t with
    | missing => cases h
    | known t =>
      unfold daysSince at hdays
      obtain ⟨ns, hns, hdays⟩ := bind_ok hdays
      unfold Instant.elapsed? Instant.minus? at hns
      dsimp only at hns
      split at hns
      · cases hns
        cases hdays
        rfl
      · cases hns

/-- An executed step adds the interest of its time to a position that its blocks do not take from. -/
theorem executeStep_held (hl : s.ledger.Reachable) (hlast : s.lastStep = some u) (hut : u.isBefore t = true)
    (h : executeStep blocks s t prices = .ok s') (hp : p ∈ s.ledger.positions)
    (hspared : ∀ days count, daysSince s.lastStep t = .ok days →
      ¬ Ledger.TakesFrom p.number (stage blocks s t prices days count) (stage blocks s t prices days (count + 1))) :
    p.accrued (u.daysTo t) ∈ s'.ledger.positions := by
  obtain ⟨days, hdays, hnone, hledger, -⟩ := executeStep_stage h
  have hgap : days = u.daysTo t := daysSince_exact hut (hlast ▸ hdays)
  have hgrown : p.accrued (u.daysTo t) ∈ (stage blocks s t prices days 0).positions := by
    show _ ∈ (s.ledger.accrueInterest (.real days)).2.positions
    rw [Ledger.accrueInterest_exact, hgap]
    exact List.mem_map_of_mem hp
  rw [hledger _ le_rfl]
  exact stage_kept hl hnone (Nat.zero_le _) hgrown fun count _ => hspared days count hdays

/-- No block of the executed ones of some steps takes from the position with a number. -/
def Spares (blocks : List (Block ℚ)) (o : Oracle ℚ) (base : String) (needed : List String) (number : Nat)
    (s₀ : State ℚ) (instants : List Instant) : Prop :=
  ∀ before t after s s' prices days count, instants = before ++ t :: after →
    before.foldlM (step blocks o base needed) s₀ = .ok s → stepPrices o base t needed = .ok prices →
    ¬ prices.length < needed.length → executeStep blocks s t prices = .ok s' → daysSince s.lastStep t = .ok days →
    ¬ Ledger.TakesFrom number (stage blocks s t prices days count) (stage blocks s t prices days (count + 1))

theorem Spares.rest {number : Nat} {instants : List Instant} (h : Spares blocks o base needed number s (t :: instants))
    (hstep : step blocks o base needed s t = .ok s') : Spares blocks o base needed number s' instants := by
  intro before t' after x x' prices days count hsplit hreached
  refine h (t :: before) t' after x x' prices days count (by rw [hsplit, List.cons_append]) ?_
  rw [List.foldlM_cons, hstep]
  exact hreached

/-- Without repayments, withdrawals and exits no position is taken from. -/
theorem spares_of_kinds (hl : s.ledger.Reachable)
    (hkinds : ∀ b ∈ blocks, ∀ kind, b.kind? = some kind → kind ≠ .repay ∧ kind ≠ .withdraw ∧ kind.category ≠ .exit)
    (o : Oracle ℚ) (base : String) (needed : List String) (number : Nat) (instants : List Instant) :
    Spares blocks o base needed number s instants := by
  intro before t after x x' prices days count _ hreached _ _ hstep hdays
  obtain ⟨days', hdays', hnone, -⟩ := executeStep_stage hstep
  obtain rfl : days = days' := Except.ok.inj (hdays.symm.trans hdays')
  exact stage_spares (steps_ok hl hreached).2 hnone hkinds number count

/-- Over any steps, executed or skipped, a position that no block takes from earns the interest of the times
between the executed ones. -/
theorem steps_held : ∀ {instants : List Instant} {s s' : State ℚ} {u : Instant} {p : Position ℚ},
    s.ledger.Reachable → s.lastStep = some u → (u :: instants).Pairwise (fun a b => a.isBefore b = true) →
      p ∈ s.ledger.positions → Spares blocks o base needed p.number s instants →
      instants.foldlM (step blocks o base needed) s = .ok s' →
      ∃ times, s'.curve.map (·.1) = times.reverse ++ s.curve.map (·.1) ∧
        p.compounded (Instant.gaps (u :: times)) ∈ s'.ledger.positions
  | [], s, s', u, p, _, _, _, hp, _, h => by
    cases h
    refine ⟨[], rfl, ?_⟩
    show p.compounded [] ∈ _
    rwa [Position.compounded_nil]
  | t :: rest, s, s', u, p, hl, hlast, hrise, hp, hspares, h => by
    rw [List.foldlM_cons] at h
    obtain ⟨s₁, hstep, h⟩ := bind_ok h
    have hrest := hspares.rest hstep
    have hl₁ := (step_ok hl hstep).2
    have hstep' := hstep
    obtain ⟨prices, hprices, hstep'⟩ := bind_ok hstep'
    split at hstep'
    · -- a skipped step is no part of the times
      cases hstep'
      have hrise' : (u :: rest).Pairwise (fun a b => a.isBefore b = true) :=
        hrise.sublist ((List.sublist_cons_self t rest).cons_cons u)
      exact steps_held (s := { s with skipped := s.skipped + 1 }) hl hlast hrise' hp hrest h
    · rename_i hall
      have hut : u.isBefore t = true := (List.pairwise_cons.1 hrise).1 t (List.mem_cons_self ..)
      have hheld := executeStep_held hl hlast hut hstep' hp fun days count =>
        hspares [] t rest s s₁ prices days count rfl rfl hprices hall hstep'
      obtain ⟨-, -, -, -, hlast₁, hcurve₁⟩ := executeStep_stage hstep'
      obtain ⟨times, hcurve, hgrown⟩ := steps_held hl₁ hlast₁ hrise.of_cons hheld hrest h
      refine ⟨t :: times, ?_, ?_⟩
      · rw [hcurve, hcurve₁, List.reverse_cons, List.append_assoc]
        rfl
      · rw [Instant.gaps, Position.compounded_cons (Instant.daysTo_pos hut)]
        exact hgrown

/-! ## Over a run -/

/-- From the step that opens it on, a position that no further block takes from grows by a factor for each
executed step, for the days since the executed step before, if its rate is above zero; and these days are
those since the opening. Each accrual changes the equity by the interest of the assets less that of the debts,
at their prices. -/
theorem interest_compounds {c : RunConfig ℚ} {tokens : List String} {fetched : Oracle ℚ} {l₀ : Ledger ℚ}
    {before between : List Instant} {s₁ s₂ : State ℚ} {count : Nat} (horder : c.stop.isAtMost c.start = false)
    (hvisit : Visit blocks o c tokens fetched l₀ before s t prices)
    (hgrid : ∃ after, Grid.build c.start c.stop c.interval = .ok (before ++ t :: (between ++ after)))
    (hdays : daysSince s.lastStep t = .ok days) (hstep : executeStep blocks s t prices = .ok s₁)
    (hrun : between.foldlM (step blocks (usable fetched) c.baseCurrency (neededTokens c tokens)) s₁ = .ok s₂)
    (hopens : Ledger.Opens (stage blocks s t prices days count) (stage blocks s t prices days (count + 1)) p)
    (hown : ∀ later, count < later → ¬ Ledger.TakesFrom p.number (stage blocks s t prices days later)
      (stage blocks s t prices days (later + 1)))
    (hspares : Spares blocks (usable fetched) c.baseCurrency (neededTokens c tokens) p.number s₁ between) :
    (∃ times : List Instant, s₂.curve.map (·.1) = times.reverse ++ t :: s.curve.map (·.1) ∧
      s₂.ledger.position? p.id = some (p.compounded (Instant.gaps (t :: times))) ∧ p.opened = t ∧
      (Instant.gaps (t :: times)).sum = p.opened.daysTo (times.getLastD t)) ∧
    ∀ (l : Ledger ℚ) (days : Num ℚ) (quotes : Quotes ℚ), (l.accrueInterest days).2.equity quotes = l.equity quotes
      + ((l.positions.filter fun p => !p.isLiability).map fun p => quotes.priceOr0 p.asset * p.earned days.value).sum
      - ((l.positions.filter fun p => p.isLiability).map fun p => quotes.priceOr0 p.asset * p.earned days.value).sum := by
  refine ⟨?_, Ledger.equity_accrueInterest⟩
  have hl : s.ledger.Reachable := (steps_ok (s := initialState l₀ _) (openLedger_reachable hvisit.opens) hvisit.reaches).2
  obtain ⟨days', hdays', hnone, hledger, hlast, hcurve⟩ := executeStep_stage hstep
  obtain rfl : days = days' := Except.ok.inj (hdays.symm.trans hdays')
  -- the step leaves the position as its block opened it
  obtain ⟨kind, -, hmoves⟩ := stage_moves hl hnone count
  have hopened : p.opened = t := hmoves.opened hopens
  have hopen : p ∈ s₁.ledger.positions := by
    rw [hledger (max (count + 1) blocks.length) (le_max_right ..)]
    exact stage_kept hl hnone (le_max_left ..) hopens.isOpen hown
  have hl₁ : s₁.ledger.Reachable := executeStep_reachable hl hstep
  obtain ⟨after, hgrid⟩ := hgrid
  have hrise : (t :: between).Pairwise fun a b => a.isBefore b = true := by
    refine (Grid.build_rising horder hgrid).sublist ?_
    rw [← List.cons_append, ← List.append_assoc]
    exact (List.sublist_append_right ..).trans (List.sublist_append_left ..)
  obtain ⟨times, htimes, hgrown⟩ := steps_held hl₁ hlast hrise hopen hspares hrun
  refine ⟨times, by rw [htimes, hcurve], ?_, hopened, ?_⟩
  · have hl₂ : s₂.ledger.Reachable := (steps_ok hl₁ hrun).2
    exact hl₂.wf.position?_id hgrown
  · rw [hopened, Instant.gaps_sum]

end

section

local instance openPartsOfInterest : ExactArithmetic := default

/-- A supply of one ether at a yearly rate of 36.5 percent. -/
def etherSupplied : Block ℚ :=
  { id := "s", kind := "aave_supply", category := .protocol, label := "",
    params := [(.text "asset", .text "ETH"), (.text "amount", .num (.real 1)), (.text "apy", .num (.real 36.5))] }

/-- Ether that is worth nothing after one day. -/
def etherGap : Oracle ℚ :=
  [("ETH", #[⟨.known 0, 100⟩, ⟨.known 86400000000000, 0⟩, ⟨.known 172800000000000, 100⟩, ⟨.known 216000000000000, 100⟩])]

/-- Two days and a half from ten ether on, in steps of a day. -/
def fromTenEther : RunConfig ℚ :=
  { start := .known 0, stop := .known 216000000000000, capital := .real 1000, interval := .whole 86400000,
    baseCurrency := "USDC", holdings := [(.text "ETH", .num (.whole 10))], granularity := .null }

theorem etherGrid : Grid.build fromTenEther.start fromTenEther.stop fromTenEther.interval =
    .ok [.known 0, .known 86400000000000, .known 172800000000000, .known 216000000000000] := rfl

theorem etherSupplied_kinds : ∀ b ∈ [etherSupplied], ∀ kind, b.kind? = some kind →
    kind ≠ .repay ∧ kind ≠ .withdraw ∧ kind.category ≠ .exit := by
  intro b hb kind hk
  rw [List.mem_singleton.1 hb] at hk
  obtain rfl : BlockKind.supply .aave = kind := Option.some.inj (Eq.trans (by decide) hk)
  exact ⟨by decide, by decide, by decide⟩

/-- The stages of that run: what is fetched, the account at the start, the prices of the first step, and the
states after it and at the end. -/
def etherStages : Except (Fault ℚ) (Oracle ℚ × Ledger ℚ × List (String × ℚ) × State ℚ × State ℚ) := do
  let fetched ← etherGap.prices ["USDC", "ETH"] (.known 0) (.known 216000000000000) .null
  let l ← openLedger (.real 1000) "USDC" [(.text "ETH", .num (.whole 10))]
  let prices ← stepPrices (usable fetched) "USDC" (.known 0) ["USDC", "ETH"]
  let s₁ ← executeStep [etherSupplied] (initialState l ["USDC", "ETH"]) (.known 0) prices
  let s₂ ← [Instant.known 86400000000000, .known 172800000000000, .known 216000000000000].foldlM
    (step [etherSupplied] (usable fetched) "USDC" ["USDC", "ETH"]) s₁
  pure (fetched, l, prices, s₁, s₂)

/-- What the stages of the run are to the theory: the first step is a visit, executed with no time since an
earlier one, and the other steps follow it. -/
theorem etherStages_visit {fetched : Oracle ℚ} {l : Ledger ℚ} {prices : List (String × ℚ)} {s₁ s₂ : State ℚ}
    (h : etherStages = .ok (fetched, l, prices, s₁, s₂)) (hlength : prices.length = 2) :
    Visit [etherSupplied] etherGap fromTenEther ["ETH"] fetched l [] (initialState l ["USDC", "ETH"]) (.known 0) prices ∧
      executeStep [etherSupplied] (initialState l ["USDC", "ETH"]) (.known 0) prices = .ok s₁ ∧
      [Instant.known 86400000000000, .known 172800000000000, .known 216000000000000].foldlM
        (step [etherSupplied] (usable fetched) "USDC" (neededTokens fromTenEther ["ETH"])) s₁ = .ok s₂ := by
  have hneeded : neededTokens fromTenEther ["ETH"] = ["USDC", "ETH"] := by decide +kernel
  unfold etherStages at h
  obtain ⟨_, hfetched, h⟩ := bind_ok h
  obtain ⟨_, hl, h⟩ := bind_ok h
  obtain ⟨_, hprices, h⟩ := bind_ok h
  obtain ⟨_, hs₁, h⟩ := bind_ok h
  obtain ⟨_, hs₂, h⟩ := bind_ok h
  cases h
  rw [hneeded]
  refine ⟨?_, hs₁, hs₂⟩
  exact
    { names := congrArg Except.ok (show Block.referencedTokens [etherSupplied] = ["ETH"] by decide +kernel)
      fetches := by rw [hneeded]; exact hfetched
      opens := hl
      divides := ⟨_, etherGrid⟩
      reaches := by rw [hneeded]; rfl
      reads := by rw [hneeded]; exact hprices
      complete := by rw [hneeded, hlength]; decide }

/-- The ether supplied first earns the interest of two days, one step being skipped, and of half a day. -/
theorem etherSupplied_compounds : ∃ s₂ : State ℚ, etherStages.toOption.map (·.2.2.2.2) = some s₂ ∧ s₂.skipped = 1 ∧
    s₂.curve.map (·.1) = [.known 216000000000000, .known 172800000000000, .known 0] ∧
    (s₂.ledger.position? "position-1").map (·.amount) = some (1.002 * 1.0005) := by
  obtain ⟨⟨fetched, l, prices, s₁, s₂⟩, hstages, hseen⟩ := ok_of_toOption
    (show etherStages.toOption.map (fun r => (r.2.2.1.length, r.2.2.2.2.skipped, r.2.2.2.2.curve.map (·.1))) =
      some (2, 1, [.known 216000000000000, .known 172800000000000, .known 0]) by decide +kernel)
  have hpositions : etherStages.toOption.map (fun r =>
      ((stage [etherSupplied] (initialState r.2.1 ["USDC", "ETH"]) (.known 0) r.2.2.1 0.0 0).positions.length,
        (stage [etherSupplied] (initialState r.2.1 ["USDC", "ETH"]) (.known 0) r.2.2.1 0.0 1).positions.map fun p =>
          (p.number, p.amount, p.apy))) = some (0, [(1, 1, 0.365)]) := by decide +kernel
  rw [hstages] at hpositions
  obtain ⟨hlength, hskipped, hcurve⟩ : prices.length = 2 ∧ s₂.skipped = 1 ∧ s₂.curve.map (·.1) = _ := by
    simpa using hseen
  obtain ⟨hnone, hone⟩ := Prod.mk.inj (Option.some.inj hpositions)
  obtain ⟨p, hopen, hp⟩ := List.map_eq_singleton_iff.1 hone
  obtain ⟨hnumber, hamount, hapy⟩ : p.number = 1 ∧ p.amount = 1 ∧ p.apy = 0.365 := by simpa using hp
  obtain ⟨hvisit, hs₁, hs₂⟩ := etherStages_visit hstages hlength
  have hreach : l.Reachable := openLedger_reachable hvisit.opens
  obtain ⟨days, hdays, hquiet, -⟩ := executeStep_stage hs₁
  obtain rfl : (0.0 : ℚ) = days := Except.ok.inj hdays
  have hopens : Ledger.Opens (stage [etherSupplied] (initialState l ["USDC", "ETH"]) (.known 0) prices 0.0 0)
      (stage [etherSupplied] (initialState l ["USDC", "ETH"]) (.known 0) prices 0.0 1) p :=
    ⟨by rw [List.length_eq_zero_iff.1 hnone]; nofun, by rw [hopen]; exact List.mem_singleton_self p⟩
  obtain ⟨⟨times, htimes, hheld, -⟩, -⟩ := interest_compounds rfl hvisit ⟨[], by exact etherGrid⟩ hdays hs₁ hs₂ hopens
    (fun later _ => stage_spares hreach hquiet etherSupplied_kinds p.number later)
    (spares_of_kinds (executeStep_reachable hreach hs₁) etherSupplied_kinds _ _ _ _ _)
  have htwo : times = [.known 172800000000000, .known 216000000000000] := by
    have hlater : [.known 216000000000000, .known 172800000000000] ++ [.known 0] = times.reverse ++ [Instant.known 0] :=
      hcurve.symm.trans htimes
    exact List.reverse_eq_iff.1 (List.append_cancel_right hlater).symm
  have hid : p.id = "position-1" := by
    unfold Position.id
    rw [hnumber]
    rfl
  refine ⟨s₂, by rw [hstages]; rfl, hskipped, hcurve, ?_⟩
  rw [← hid, hheld, htwo, Option.map_some]
  unfold Position.compounded
  rw [hamount, hapy]
  norm_num [Instant.gaps, Instant.daysTo, Instant.count, Instant.perDay, Instant.perSecond]

end

end Simulation

end StrategyLab
