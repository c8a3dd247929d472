/-
Schedulers of one process whose workers are threads. A scheduler evaluates with its own price data if and
only if, whenever it evaluates, the thread that started last belongs to a scheduler with the same
data. It then gets on as if it were the only one (`alone_of_own_data`). Otherwise it may answer with
the price data of another scheduler, and keep the answer (`answered_with_other_prices`).
-/
import StrategyLab.Proofs.Schedule.Tenant
import StrategyLab.Proofs.Schedule.Transparent

namespace StrategyLab

variable {ι α : Type} [Scalar α]

namespace Tenancy

variable [DecidableEq ι] {setup : ι → Setup α} {p p' : Tenancy ι α} {i : ι} {events : List (ι × Event α)}

/-! ## Runs -/

theorem act_eq_some {e : Event α} : p.act setup i e = some p' ↔ ∃ t, (p.tenants i).act (setup i) p.installed e = some t ∧
    p' = { installed := (e.installs (setup i)).or p.installed, tenants := Function.update p.tenants i t } := by
  unfold act
  refine Option.bind_eq_some_iff.trans (exists_congr fun t => and_congr_right fun _ => ?_)
  rw [Option.some.injEq, eq_comm]

theorem run_append (before after : List (ι × Event α)) (p : Tenancy ι α) :
    run setup (before ++ after) p = (run setup before p).bind (run setup after) := List.foldlM_append

theorem run_trans {before after : List (ι × Event α)} {p q r : Tenancy ι α} (h : run setup before p = some q)
    (h' : run setup after q = some r) : run setup (before ++ after) p = some r := by
  rw [run_append, h]
  exact h'

theorem run_concat {e : Event α} : run setup (events ++ [(i, e)]) p = some p' ↔
    ∃ q, run setup events p = some q ∧ q.act setup i e = some p' := by
  rw [run_append, Option.bind_eq_some_iff]
  simp [run]

/-- Events of one of the schedulers. -/
theorem run_own {es : List (Event α)} {p : Tenancy ι α} {x : Option (Oracle α) × Tenant α}
    (h : Tenant.Leads (setup i) es (p.installed, p.tenants i) x) :
    run setup (es.map fun e => (i, e)) p = some { installed := x.1, tenants := Function.update p.tenants i x.2 } := by
  generalize hbegin : (p.installed, p.tenants i) = b at h
  induction h with
  | none =>
    subst hbegin
    rw [Function.update_eq_self]
    rfl
  | @more _ e _ y t _ hact ih =>
    rw [List.map_append, List.map_singleton, run_concat]
    refine ⟨_, ih hbegin, act_eq_some.2 ⟨t, ?_, ?_⟩⟩
    · simpa only [Function.update_self] using hact
    · simp only [Function.update_idem]

/-- The scheduler whose thread started last. -/
def installer (setup : ι → Setup α) (events : List (ι × Event α)) : Option ι :=
  events.foldl (fun last event => if (event.2.installs (setup event.1)).isSome then some event.1 else last) none

omit [Scalar α] [DecidableEq ι] in
theorem installer_concat (events : List (ι × Event α)) (i : ι) (e : Event α) :
    installer setup (events ++ [(i, e)]) = if (e.installs (setup i)).isSome then some i else installer setup events := by
  unfold installer
  rw [List.foldl_append]
  rfl

/-- Its price data is installed. -/
theorem run_installed (hrun : run setup events fresh = some p) :
    p.installed = (installer setup events).bind fun j => (setup j).prices.toOption := by
  induction events using List.reverseRecOn generalizing p with
  | nil =>
    cases hrun
    rfl
  | append_singleton events event ih =>
    obtain ⟨j, e⟩ := event
    obtain ⟨q, hq, hact⟩ := run_concat.1 hrun
    obtain ⟨t, -, rfl⟩ := act_eq_some.1 hact
    rw [installer_concat]
    cases hinstalls : e.installs (setup j) with
    | none =>
      rw [if_neg (by simp)]
      show q.installed = _
      exact ih hq
    | some oracle => exact (Event.prices_of_installs hinstalls).symm

/-- A scheduler with a thread has usable price data, and some price data is installed. -/
theorem run_ready (hrun : run setup events fresh = some p) (hthreads : 0 < (p.tenants i).threads) :
    ∃ oracle, (setup i).prices = .ok oracle ∧ ∃ j, installer setup events = some j := by
  induction events using List.reverseRecOn generalizing p with
  | nil =>
    cases hrun
    cases hthreads
  | append_singleton events event ih =>
    obtain ⟨j, e⟩ := event
    obtain ⟨q, hq, hact⟩ := run_concat.1 hrun
    obtain ⟨t, ht, rfl⟩ := act_eq_some.1 hact
    rw [installer_concat]
    have hbefore : 0 < (q.tenants i).threads → ∃ oracle, (setup i).prices = .ok oracle ∧
        ∃ j', (if (e.installs (setup j)).isSome then some j else installer setup events) = some j' := fun h => by
      obtain ⟨oracle, hprices, j', hj'⟩ := ih hq h
      refine ⟨oracle, hprices, ?_⟩
      split
      · exact ⟨j, rfl⟩
      · exact ⟨j', hj'⟩
    by_cases hij : i = j
    · subst hij
      dsimp only at hthreads
      rw [Function.update_self] at hthreads
      rcases Tenant.act_threads ht with hsame | ⟨oracle, hinstalls⟩
      · exact hbefore (hsame ▸ hthreads)
      · have hprices := Event.prices_of_installs hinstalls
        cases h : (setup i).prices with
        | error f =>
          rw [h] at hprices
          cases hprices
        | ok own => exact ⟨own, rfl, i, by rw [hinstalls]; rfl⟩
    · dsimp only at hthreads
      rw [Function.update_of_ne hij] at hthreads
      exact hbefore hthreads

/-! ## One scheduler among others -/

/-- Whenever a scheduler evaluates, its own price data is installed. -/
def OwnData (setup : ι → Setup α) (events : List (ι × Event α)) (i : ι) : Prop :=
  ∀ before n after, events = before ++ (i, .finish n .evaluated) :: after →
    ∃ p oracle, run setup before fresh = some p ∧ (setup i).prices = .ok oracle ∧ p.installed = some oracle

theorem OwnData.of_append {more : List (ι × Event α)} (h : OwnData setup (events ++ more) i) :
    OwnData setup events i := by
  rintro before n after rfl
  exact h before n (after ++ more) (by simp)

/-- Whenever a scheduler evaluates, the thread that started last belongs to one with the same price data. -/
def LastStartedAlike (setup : ι → Setup α) (events : List (ι × Event α)) (i : ι) : Prop :=
  ∀ before n after, events = before ++ (i, .finish n .evaluated) :: after →
    ∀ j, installer setup before = some j → (setup j).prices = (setup i).prices

theorem ownData_iff (hrun : run setup events fresh = some p) :
    OwnData setup events i ↔ LastStartedAlike setup events i := by
  constructor
  · intro h before n after hevents j hj
    obtain ⟨q, oracle, hq, hprices, hinstalled⟩ := h before n after hevents
    rw [run_installed hq, hj] at hinstalled
    rw [hprices]
    dsimp only [Option.bind] at hinstalled
    cases hother : (setup j).prices with
    | error f =>
      rw [hother] at hinstalled
      cases hinstalled
    | ok x =>
      rw [hother] at hinstalled
      exact congrArg Except.ok (Option.some.inj hinstalled)
  · rintro h before n after rfl
    rw [run_append] at hrun
    obtain ⟨q, hq, hafter⟩ := Option.bind_eq_some_iff.1 hrun
    -- the evaluation takes a thread, so that some thread has started before
    obtain ⟨q', hact, -⟩ := Option.bind_eq_some_iff.1 hafter
    obtain ⟨t, ht, -⟩ := act_eq_some.1 hact
    obtain ⟨oracle, hprices, j, hj⟩ := run_ready hq (Tenant.threads_of_evaluated ht)
    refine ⟨q, oracle, hq, hprices, ?_⟩
    rw [run_installed hq, hj]
    show (setup j).prices.toOption = some oracle
    rw [h before n after rfl j hj, hprices]
    rfl

/-- The same scheduler when only its own events happen. -/
structure Matches (setup : ι → Setup α) (i : ι) (p q : Tenancy ι α) : Prop where
  tenant : q.tenants i = p.tenants i
  others : ∀ j, j ≠ i → q.tenants j = .fresh
  installed : 0 < (p.tenants i).threads → q.installed = (setup i).prices.toOption

theorem Matches.other {q : Tenancy ι α} (h : Matches setup i p q) {j : ι} (hij : i ≠ j) {e : Event α}
    (hact : p.act setup j e = some p') : Matches setup i p' q := by
  obtain ⟨t, -, rfl⟩ := act_eq_some.1 hact
  refine ⟨?_, h.others, ?_⟩
  · exact h.tenant.trans (Function.update_of_ne hij t p.tenants).symm
  · dsimp only
    rw [Function.update_of_ne hij]
    exact h.installed

theorem Matches.own {q : Tenancy ι α} (h : Matches setup i p q) {e : Event α} (hact : p.act setup i e = some p')
    (hown : ∀ n, e = .finish n .evaluated → p.installed = (setup i).prices.toOption) :
    ∃ q', q.act setup i e = some q' ∧ Matches setup i p' q' := by
  obtain ⟨t, ht, rfl⟩ := act_eq_some.1 hact
  have halike : (q.tenants i).act (setup i) q.installed e = some t := by
    rw [h.tenant, ← ht]
    refine Tenant.act_congr ?_
    rintro n rfl
    rw [h.installed (Tenant.threads_of_evaluated ht), hown n rfl]
  refine ⟨_, act_eq_some.2 ⟨t, halike, rfl⟩, ?_, fun j hj => ?_, fun hthreads => ?_⟩
  · simp only [Function.update_self]
  · simp only [Function.update_of_ne hj]
    exact h.others j hj
  · dsimp only at hthreads ⊢
    rw [Function.update_self] at hthreads
    cases hinstalls : e.installs (setup i) with
    | some oracle => exact (Event.prices_of_installs hinstalls).symm
    | none =>
      have hsame : t.threads = (p.tenants i).threads :=
        (Tenant.act_threads ht).resolve_right fun ⟨oracle, h⟩ => by rw [hinstalls] at h; cases h
      exact h.installed (hsame ▸ hthreads)

theorem exists_matches (hrun : run setup events fresh = some p) (hown : OwnData setup events i) :
    ∃ q, run setup (events.filter fun event => event.1 = i) fresh = some q ∧ Matches setup i p q := by
  induction events using List.reverseRecOn generalizing p with
  | nil =>
    cases hrun
    exact ⟨fresh, rfl, rfl, fun _ _ => rfl, nofun⟩
  | append_singleton events event ih =>
    obtain ⟨j, e⟩ := event
    obtain ⟨p₀, hp₀, hact⟩ := run_concat.1 hrun
    obtain ⟨q, hq, hmatches⟩ := ih hp₀ hown.of_append
    rw [List.filter_append]
    by_cases hij : i = j
    · subst hij
      obtain ⟨q', hq', hmatches'⟩ := hmatches.own hact fun n he => by
        obtain ⟨p₁, oracle, hp₁, hprices, hinstalled⟩ := hown events n [] (by rw [he])
        obtain rfl : p₀ = p₁ := Option.some.inj (hp₀.symm.trans hp₁)
        rw [hinstalled, hprices]
        rfl
      refine ⟨q', ?_, hmatches'⟩
      rw [List.filter_cons_of_pos (by simp), List.filter_nil]
      exact run_concat.2 ⟨q, hq, hq'⟩
    · refine ⟨q, ?_, hmatches.other hij hact⟩
      rw [List.filter_cons_of_neg (by simpa using fun h => hij h.symm), List.filter_nil, List.append_nil]
      exact hq

/-- A scheduler evaluates with its own price data if and only if the last thread to start before each of
its evaluations belongs to one with the same data. It then gets on as if only its own events happened: its
requests have the same answers, and the same results are kept. -/
theorem alone_of_own_data (hrun : run setup events fresh = some p) (i : ι) :
    (OwnData setup events i ↔ LastStartedAlike setup events i) ∧
    (LastStartedAlike setup events i → ∃ q, run setup (events.filter fun event => event.1 = i) fresh = some q ∧
      q.tenants i = p.tenants i ∧ ∀ j, j ≠ i → q.tenants j = .fresh) := by
  refine ⟨ownData_iff hrun, fun halike => ?_⟩
  obtain ⟨q, hq, hmatches⟩ := exists_matches hrun ((ownData_iff hrun).2 halike)
  exact ⟨q, hq, hmatches.tenant, hmatches.others⟩

/-! ## Two schedulers -/

/-- A request that is the first to come makes its scheduler start a thread. -/
def begins (j : Job α) : List (Event α) := [.receive j, .proceed 0, .proceed 0, .start]

/-- A thread evaluates it, and its result is kept. -/
def ends : List (Event α) := [.finish 0 .evaluated, .proceed 0]

/-- The scheduler of a first request. -/
def firstAt (j : Job α) (threads : Nat) (next : RequestStage α × Scheduler α) : Tenant α :=
  { Tenant.fresh.receive j with threads }.moved 0 j next

open Scheduler (fingerprint empty failureOf requestOf lookUp)

/-- Where a first request is when its thread has started. -/
def begun (c : Setup α) (j : Job α) (key : String) : Tenant α :=
  firstAt j 1 (.waiting key 1 0 c.plan.retry.retries.toNat, { (empty : Scheduler α) with misses := 1 }.handIn.2)

omit [DecidableEq ι] in
theorem begins_leads {c : Setup α} {oracle : Oracle α} (hprices : c.prices = .ok oracle) (hworkers : 0 < c.workers)
    {j : Job α} {key : String} (hkey : fingerprint j = .ok key) (installed : Option (Oracle α)) :
    Tenant.Leads c (begins j) (installed, .fresh) (some oracle, begun c j key) := by
  have hreceived : Tenant.Leads c [.receive j] (installed, .fresh) (installed, firstAt j 0 (.received, empty)) :=
    Tenant.receive_leads c installed .fresh j
  have hmissed : (Pending.mk j .received).proceed c.plan empty =
      some (.ready key 0 c.plan.retry.retries.toNat, { (empty : Scheduler α) with misses := 1 }) := by
    unfold Pending.proceed
    simp only [hkey]
    rfl
  have hlooked := hreceived.trans (.proceed installed Nat.one_pos hmissed)
  have hhanded := hlooked.trans (.proceed installed (x := (.ready key 0 c.plan.retry.retries.toNat, _)) Nat.one_pos rfl)
  have hstarted := hhanded.trans (.single (Tenant.act_start installed hprices rfl hworkers Nat.one_pos))
  rw [Event.installs, hprices] at hstarted
  exact hstarted

omit [DecidableEq ι] in
theorem ends_leads {c : Setup α} {oracle : Oracle α} {j : Job α} {r : StoredReport α}
    (hr : failureOf c.plan j.parameters (Host.answers oracle (requestOf s!"task-{1}" j)) = .ok r) (key : String) :
    ∃ t : Tenant α, Tenant.Leads c ends (some oracle, begun c j key) (some oracle, t) ∧
      t.requests = [⟨j, .answered (.ok r)⟩] ∧ t.scheduler.cache = [(key, r)] := by
  have hfinished : (Pending.mk j (.waiting key 1 0 c.plan.retry.retries.toNat)).finish c.plan (Host.answers oracle)
      { (empty : Scheduler α) with misses := 1 }.handIn.2 = some (Host.answers oracle (requestOf s!"task-{1}" j),
        .keeping key r, { (empty : Scheduler α) with misses := 1 }.handIn.2.release) := by
    change some (_, RequestStage.settle c.plan key 0 c.plan.retry.retries.toNat (failureOf c.plan j.parameters
      (Host.answers oracle (requestOf s!"task-{1}" j))), _) = _
    rw [hr]
    rfl
  have hevaluated : Tenant.Leads c [.finish 0 .evaluated] (some oracle, begun c j key)
      (some oracle, firstAt j 1 (.keeping key r, { (empty : Scheduler α) with misses := 1 }.handIn.2.release)) :=
    .quiet (Tenant.act_finish (t := { Tenant.fresh.receive j with threads := 1 }) Nat.one_pos
      (x := (.waiting key 1 0 c.plan.retry.retries.toNat, _)) rfl hfinished rfl) rfl
  exact ⟨_, hevaluated.trans (.proceed (some oracle) (x := (.keeping key r, _)) Nat.one_pos rfl), rfl, rfl⟩

theorem begins_run {oracle : Oracle α} (hfresh : p.tenants i = .fresh) (hprices : (setup i).prices = .ok oracle)
    (hworkers : 0 < (setup i).workers) {j : Job α} {key : String} (hkey : fingerprint j = .ok key) :
    ∃ q, run setup ((begins j).map fun e => (i, e)) p = some q ∧ q.installed = some oracle ∧
      q.tenants i = begun (setup i) j key ∧ ∀ k, k ≠ i → q.tenants k = p.tenants k := by
  have hleads := begins_leads hprices hworkers hkey p.installed
  rw [← hfresh] at hleads
  exact ⟨_, run_own hleads, rfl, Function.update_self .., fun k hk => Function.update_of_ne hk ..⟩

theorem ends_run {oracle : Oracle α} {j : Job α} {key : String} (hbegun : p.tenants i = begun (setup i) j key)
    (hinstalled : p.installed = some oracle) {r : StoredReport α}
    (hr : failureOf (setup i).plan j.parameters (Host.answers oracle (requestOf s!"task-{1}" j)) = .ok r) :
    ∃ q, run setup (ends.map fun e => (i, e)) p = some q ∧ (q.tenants i).requests = [⟨j, .answered (.ok r)⟩] ∧
      (q.tenants i).scheduler.cache = [(key, r)] ∧ ∀ k, k ≠ i → q.tenants k = p.tenants k := by
  obtain ⟨t, hleads, hrequests, hcache⟩ := ends_leads hr key
  rw [← hbegun, ← hinstalled] at hleads
  refine ⟨_, run_own hleads, ?_, ?_, fun k hk => Function.update_of_ne hk ..⟩
  · simpa only [Function.update_self] using hrequests
  · simpa only [Function.update_self] using hcache

/-! ## Two schedulers, one price that rises and one that does not -/

open Scheduler (briefly etherOracle)
open Simulation (etherBought)

local instance marketsWritten : ExactArithmetic := fractionsWritten

def etherRising : Oracle ℚ := [("ETH", #[⟨.known 0, 100⟩, ⟨.known 1000000, 200⟩])]

/-- The price rises for the second scheduler. -/
def markets (rises : Bool) : Setup ℚ :=
  { plan := .default, prices := .ok (if rises then etherRising else etherOracle), workers := 1 }

theorem steady_prices : (markets false).prices = .ok etherOracle := rfl

theorem rising_prices : (markets true).prices = .ok etherRising := rfl

def purchase : Job ℚ := briefly etherBought

theorem purchase_carried : purchase.Carried :=
  Scheduler.briefly_carried (by decide) Scheduler.etherBought_params.1

theorem purchase_key : ∃ key, fingerprint purchase = .ok key :=
  ⟨_, Scheduler.fingerprint_writable purchase_carried.toWritable⟩

theorem purchase_results : ∃ r r' : StoredReport ℚ, (∀ id, failureOf .default purchase.parameters
      (Host.answers etherOracle (requestOf id purchase)) = .ok r) ∧
    (∀ id, failureOf .default purchase.parameters (Host.answers etherRising (requestOf id purchase)) = .ok r') ∧ r' ≠ r := by
  obtain ⟨r, hr, hsteady⟩ := ok_of_toOption
    (show (purchase.simulate etherOracle).toOption.map (fun r => r.stored.curve.getLast?.map (·.2)) =
      some (some (19995209 / 20000)) by decide +kernel)
  obtain ⟨r', hr', hrising⟩ := ok_of_toOption
    (show (purchase.simulate etherRising).toOption.map (fun r => r.stored.curve.getLast?.map (·.2)) =
      some (some (5048403 / 5000)) by decide +kernel)
  refine ⟨r.stored, r'.stored, Scheduler.failureOf_answer_ok .default purchase_carried hr,
    Scheduler.failureOf_answer_ok .default purchase_carried hr', fun heq => ?_⟩
  rw [heq, hsteady] at hrising
  revert hrising
  decide +kernel

/-- A run in which one scheduler answers its request before the other one starts a thread. -/
theorem answered_with_own_prices :
    let first := ((begins purchase).map fun e => (false, e)) ++ ends.map fun e => (false, e)
    let events := first ++ (begins purchase).map fun e => (true, e)
    ∃ p q r, run markets events fresh = some p ∧ LastStartedAlike markets events false ∧ OwnData markets events false ∧
      run markets first fresh = some q ∧ q.tenants false = p.tenants false ∧
      (p.tenants false).requests = [⟨purchase, .answered (.ok r)⟩] := by
  intro first events
  obtain ⟨key, hkey⟩ := purchase_key
  obtain ⟨r, -, hr, -, -⟩ := purchase_results
  obtain ⟨p₁, hp₁, hinstalled, hbegun, hother⟩ :=
    begins_run (p := fresh) (i := false) rfl steady_prices Nat.one_pos hkey
  obtain ⟨p₂, hp₂, hrequests, -, hother'⟩ := ends_run hbegun hinstalled (hr _)
  have hfresh : p₂.tenants true = .fresh := (hother' true (by decide)).trans (hother true (by decide))
  obtain ⟨p, hp, -, -, hsame⟩ := begins_run hfresh rising_prices Nat.one_pos hkey
  have hrun : run markets events fresh = some p := run_trans (run_trans hp₁ hp₂) hp
  have halike : LastStartedAlike markets events false := by
    intro before n after hevents j hj
    have hbefore : before = (begins purchase).map fun e => (false, e) := by
      simp [events, first, begins, ends, List.cons_eq_append_iff] at hevents
      exact hevents.1
    subst hbefore
    cases hj
    rfl
  obtain ⟨hown, hsolo⟩ := alone_of_own_data hrun false
  obtain ⟨q, hq, htenant, -⟩ := hsolo halike
  exact ⟨p, q, r, hrun, halike, hown.2 halike, hq, htenant, by rw [hsame false (by decide), hrequests]⟩

/-- Both threads start before the first request is evaluated. It is answered with the price of the other
scheduler, and the answer is kept. -/
theorem answered_with_other_prices :
    let before := ((begins purchase).map fun e => (false, e)) ++ (begins purchase).map fun e => (true, e)
    let events := before ++ ends.map fun e => (false, e)
    ∃ p q key r r', run markets events fresh = some p ∧
      run markets (events.filter fun event => event.1 = false) fresh = some q ∧
      (q.tenants false).requests = [⟨purchase, .answered (.ok r)⟩] ∧
      (p.tenants false).requests = [⟨purchase, .answered (.ok r')⟩] ∧ r' ≠ r ∧
      (p.tenants false).scheduler.cache = [(key, r')] ∧ ¬ OwnData markets events false := by
  intro before events
  obtain ⟨key, hkey⟩ := purchase_key
  obtain ⟨r, r', hr, hr', hne⟩ := purchase_results
  obtain ⟨p₁, hp₁, hinstalled, hbegun, hother⟩ :=
    begins_run (p := fresh) (i := false) rfl steady_prices Nat.one_pos hkey
  obtain ⟨p₂, hp₂, hinstalled', -, hother'⟩ :=
    begins_run (hother true (by decide)) rising_prices Nat.one_pos hkey
  have hbegun' : p₂.tenants false = begun (markets false) purchase key := (hother' false (by decide)).trans hbegun
  obtain ⟨p, hp, hrequests', hcache, -⟩ := ends_run hbegun' hinstalled' (hr' _)
  obtain ⟨q, hq, hrequests, -, -⟩ := ends_run hbegun hinstalled (hr _)
  have hboth : run markets before fresh = some p₂ := run_trans hp₁ hp₂
  refine ⟨p, q, key, r, r', run_trans hboth hp, run_trans hp₁ hq, hrequests, hrequests', hne, hcache, fun hown => ?_⟩
  obtain ⟨p', oracle, hp', hprices, hown⟩ := hown before 0 [(false, .proceed 0)] rfl
  rw [hboth] at hp'
  cases hp'
  cases hprices
  rw [hinstalled'] at hown
  simp [etherRising, etherOracle] at hown

end Tenancy

end StrategyLab

/-! ## Requests in turn

Requests that come one after the other, to schedulers whose threads are pools of one host. They are one
order of the events of a process (`turns_run`). -/

namespace StrategyLab.Tenancy

variable {α : Type} [Scalar α]

/-- One request to a scheduler, whose threads are the pool with its number. -/
def turn (setup : Nat → Setup α) (i : Nat) (j : Job α) (s : (Nat → Scheduler α) × Host α) :
    Except (JobFault α) (StoredReport α) × (Nat → Scheduler α) × Host α :=
  let (answer, scheduler, host) := Scheduler.runJob (setup i).plan (Host.pool i (setup i).prices) j (s.1 i, s.2)
  (answer, Function.update s.1 i scheduler, host)

/-- Several requests one after the other, with their answers. -/
def turns (setup : Nat → Setup α) :
    List (Nat × Job α) → (Nat → Scheduler α) × Host α → List (Nat × Pending α) × (Nat → Scheduler α) × Host α
  | [], s => ([], s)
  | (i, j) :: rest, s =>
    let (answer, s) := turn setup i j s
    let (others, s) := turns setup rest s
    ((i, ⟨j, .answered answer⟩) :: others, s)

variable {setup : Nat → Setup α} {s : (Nat → Scheduler α) × Host α} {p : Tenancy Nat α}

/-- A process with the schedulers and the pools of a host. -/
structure Housed (setup : Nat → Setup α) (s : (Nat → Scheduler α) × Host α) (p : Tenancy Nat α) : Prop where
  schedulers : ∀ i, (p.tenants i).scheduler = s.1 i
  installed : p.installed = s.2.installed
  houses : ∀ i, Tenant.Houses (setup i) i s.2 (p.tenants i)

omit [Scalar α] in
theorem housed_fresh (setup : Nat → Setup α) : Housed setup (fun _ => .empty, Host.fresh) fresh :=
  ⟨fun _ => rfl, rfl, fun _ => ⟨by simp [Host.fresh, fresh, Tenant.fresh], nofun, nofun⟩⟩

theorem turn_run (hworkers : ∀ i, 0 < (setup i).workers) (h : Housed setup s p) (i : Nat) (j : Job α) : ∃ events p',
    run setup events p = some p' ∧ Housed setup (turn setup i j s).2 p' ∧
    (p'.tenants i).requests = (p.tenants i).requests ++ [⟨j, .answered (turn setup i j s).1⟩] ∧
    ∀ k, k ≠ i → p'.tenants k = p.tenants k := by
  obtain ⟨es, x, host, t, hjob, hleads, hrequests, hhouses, hothers⟩ :=
    Tenant.runJob_leads (hworkers i) (h.houses i) j
  rw [h.schedulers] at hjob
  rw [← h.installed] at hleads
  have hturn : turn setup i j s = (x, Function.update s.1 i t.scheduler, host) := by
    unfold turn
    rw [hjob]
  rw [hturn]
  refine ⟨_, _, run_own hleads, ⟨fun k => ?_, rfl, fun k => ?_⟩, ?_, fun k hk => Function.update_of_ne hk ..⟩
  · by_cases hk : k = i
    · subst hk
      simp only [Function.update_self]
    · simp only [Function.update_of_ne hk]
      exact h.schedulers k
  · by_cases hk : k = i
    · subst hk
      simpa only [Function.update_self] using hhouses
    · -- only the pool of the scheduler may have been started
      simp only [Function.update_of_ne hk]
      refine ⟨?_, (h.houses k).supplied, (h.houses k).broken⟩
      rw [hothers k hk]
      exact (h.houses k).started
  · simpa only [Function.update_self] using hrequests

theorem housed_turns (hworkers : ∀ i, 0 < (setup i).workers) (requests : List (Nat × Job α)) : ∀ {s p}, Housed setup s p →
    ∃ events p', run setup events p = some p' ∧ Housed setup (turns setup requests s).2 p' ∧ ∀ i,
      (p'.tenants i).requests = (p.tenants i).requests ++ ((turns setup requests s).1.filter (·.1 = i)).map (·.2) := by
  induction requests with
  | nil =>
    intro s p h
    refine ⟨[], p, rfl, h, fun i => ?_⟩
    simp [turns]
  | cons request rest ih =>
    intro s p h
    obtain ⟨i, j⟩ := request
    obtain ⟨first, p₁, hfirst, hhoused, hanswered, hothers⟩ := turn_run hworkers h i j
    obtain ⟨others, p', hrest, hhoused', hrequests⟩ := ih hhoused
    refine ⟨first ++ others, p', run_trans hfirst hrest, hhoused', fun k => ?_⟩
    have hturns : (turns setup ((i, j) :: rest) s).1 =
        (i, ⟨j, .answered (turn setup i j s).1⟩) :: (turns setup rest (turn setup i j s).2).1 := rfl
    rw [hrequests k, hturns]
    by_cases hk : i = k
    · subst hk
      rw [hanswered, List.filter_cons_of_pos (by simp), List.map_cons, List.append_assoc, List.singleton_append]
    · rw [hothers k (Ne.symm hk), List.filter_cons_of_neg (by simpa using hk)]

/-- Requests that the pools of a host answer one after the other are one order of the events of a process, in
which they have the same answers and which leaves the schedulers the same. -/
theorem turns_run (hworkers : ∀ i, 0 < (setup i).workers) (requests : List (Nat × Job α)) :
    let answered := turns setup requests (fun _ => .empty, Host.fresh)
    ∃ events p, run setup events fresh = some p ∧ p.installed = answered.2.2.installed ∧ ∀ i,
      (p.tenants i).scheduler = answered.2.1 i ∧
      (p.tenants i).requests = (answered.1.filter (·.1 = i)).map (·.2) := by
  intro answered
  obtain ⟨events, p, hrun, hhoused, hrequests⟩ := housed_turns hworkers requests (housed_fresh setup)
  exact ⟨events, p, hrun, hhoused.installed, fun i => ⟨hhoused.schedulers i, hrequests i⟩⟩

end StrategyLab.Tenancy
