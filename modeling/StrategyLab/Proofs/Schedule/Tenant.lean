/-
Single events of a scheduler whose workers are threads, and events one after the other. A request that
is run on its own is one order of events (`runJob_leads`).
-/
import Mathlib.Tactic
import StrategyLab.Proofs.Schedule.Sequential
import StrategyLab.Schedule.Tenancy
import StrategyLab.Schedule.Thread

namespace StrategyLab

open Scheduler

variable {ι α : Type} [Scalar α]

/-! ## Single events -/

omit [Scalar α] in
theorem Event.prices_of_installs {c : Setup α} {e : Event α} {oracle : Oracle α} (h : e.installs c = some oracle) :
    c.prices.toOption = some oracle := by
  cases e with
  | start => exact h
  | _ => cases h

namespace Tenant

variable {c : Setup α} {installed installed' : Option (Oracle α)} {t t' : Tenant α} {e : Event α} {n : Nat} {j : Job α}

/-- Only an evaluation depends on what is installed. -/
theorem act_congr (h : ∀ n, e = .finish n .evaluated → installed = installed') :
    t.act c installed e = t.act c installed' e := by
  cases e with
  | finish n how =>
    cases how with
    | evaluated => rw [h n rfl]
    | _ => rfl
  | _ => rfl

/-- An evaluation takes a thread. -/
theorem threads_of_evaluated (h : t.act c installed (.finish n .evaluated) = some t') : 0 < t.threads := by
  obtain ⟨r, -, h⟩ := Option.bind_eq_some_iff.1 h
  obtain ⟨work, hwork, -⟩ := Option.bind_eq_some_iff.1 h
  unfold Tenant.work at hwork
  by_contra hnone
  rw [if_neg hnone] at hwork
  cases hwork

/-- A thread starts with usable price data. -/
theorem act_threads (h : t.act c installed e = some t') :
    t'.threads = t.threads ∨ ∃ oracle, e.installs c = some oracle := by
  cases e with
  | receive j =>
    cases h
    exact .inl rfl
  | start =>
    change t.start c = some t' at h
    unfold start at h
    split at h
    · cases h
    · cases hprices : c.prices with
      | ok oracle => exact .inr ⟨oracle, by rw [Event.installs, hprices]; rfl⟩
      | error f =>
        rw [hprices] at h
        cases h
        exact .inl rfl
  | proceed n =>
    obtain ⟨r, -, h⟩ := Option.bind_eq_some_iff.1 h
    obtain ⟨next, -, h⟩ := Option.bind_eq_some_iff.1 h
    cases h
    exact .inl rfl
  | finish n how =>
    obtain ⟨r, -, h⟩ := Option.bind_eq_some_iff.1 h
    obtain ⟨work, -, h⟩ := Option.bind_eq_some_iff.1 h
    obtain ⟨⟨completion, next⟩, -, h⟩ := Option.bind_eq_some_iff.1 h
    obtain rfl := Option.some.inj h
    refine .inl ?_
    split <;> rfl
  | free =>
    change t.free = some t' at h
    unfold free at h
    split at h
    · cases h
    · cases h
      exact .inl rfl

omit [Scalar α] in
theorem moved_moved (t : Tenant α) (n : Nat) (j : Job α) (x y : RequestStage α × Scheduler α) :
    (t.moved n j x).moved n j y = t.moved n j y := by
  unfold moved
  rw [List.set_set]

omit [Scalar α] in
theorem moved_request (hn : n < t.requests.length) (x : RequestStage α × Scheduler α) :
    (t.moved n j x).requests[n]? = some ⟨j, x.1⟩ := List.getElem?_set_self hn

theorem act_proceed (hn : n < t.requests.length) {x next : RequestStage α × Scheduler α}
    (h : (Pending.mk j x.1).proceed c.plan x.2 = some next) :
    (t.moved n j x).act c installed (.proceed n) = some (t.moved n j next) := by
  have hscheduler : (t.moved n j x).scheduler = x.2 := rfl
  change (t.moved n j x).proceed c n = _
  unfold proceed
  rw [moved_request hn, Option.bind_eq_bind, Option.bind_some, hscheduler, h, Option.bind_eq_bind, Option.bind_some,
    moved_moved]

theorem act_finish (hn : n < t.requests.length) {x next : RequestStage α × Scheduler α} {how : Ending}
    {work : Object α → Completion α} {completion : Completion α} (hwork : t.work installed how = some work)
    (h : (Pending.mk j x.1).finish c.plan work x.2 = some (completion, next)) (hactive : staysActive completion = false) :
    (t.moved n j x).act c installed (.finish n how) = some (t.moved n j next) := by
  have hscheduler : (t.moved n j x).scheduler = x.2 := rfl
  have hsame : (t.moved n j x).work installed how = t.work installed how := by cases how <;> rfl
  change (t.moved n j x).finish c installed n how = _
  unfold finish
  rw [moved_request hn, Option.bind_eq_bind, Option.bind_some, hsame, hwork, Option.bind_eq_bind, Option.bind_some,
    hscheduler, h, Option.bind_eq_bind, Option.bind_some]
  dsimp only
  rw [hactive, moved_moved]
  rfl

/-! ## Events one after the other -/

/-- Events lead from one state of a scheduler, and of what is installed, to another. -/
inductive Leads (c : Setup α) :
    List (Event α) → Option (Oracle α) × Tenant α → Option (Oracle α) × Tenant α → Prop where
  | none (x : Option (Oracle α) × Tenant α) : Leads c [] x x
  | more {es : List (Event α)} {e : Event α} {x y : Option (Oracle α) × Tenant α} {t : Tenant α} (hes : Leads c es x y)
      (hact : y.2.act c y.1 e = some t) : Leads c (es ++ [e]) x ((e.installs c).or y.1, t)

theorem Leads.single (hact : t.act c installed e = some t') :
    Leads c [e] (installed, t) ((e.installs c).or installed, t') := .more (.none (installed, t)) hact

/-- An event that installs nothing. -/
theorem Leads.quiet (hact : t.act c installed e = some t') (hquiet : e.installs c = Option.none) :
    Leads c [e] (installed, t) (installed, t') := by
  have h := Leads.single hact
  rwa [hquiet] at h

theorem Leads.proceed (installed : Option (Oracle α)) (hn : n < t.requests.length) {x next : RequestStage α × Scheduler α}
    (h : (Pending.mk j x.1).proceed c.plan x.2 = some next) :
    Leads c [.proceed n] (installed, t.moved n j x) (installed, t.moved n j next) :=
  .quiet (act_proceed hn h) rfl

theorem Leads.trans {es es' : List (Event α)} {x y z : Option (Oracle α) × Tenant α} (h : Leads c es x y)
    (h' : Leads c es' y z) : Leads c (es ++ es') x z := by
  induction h' with
  | none => rwa [List.append_nil]
  | more _ hact ih =>
    rw [← List.append_assoc]
    exact (ih h).more hact

/-! ## A request on its own -/

section Alone

open Batch (attempts attempts_sequel sequel sequel_lt bind_run answered evaluated evaluate_eq evaluateAndKeep runJob_hit runJob_miss)

/-- A scheduler whose threads are a pool of a host. -/
structure Houses (c : Setup α) (number : Nat) (p : Host α) (t : Tenant α) : Prop where
  started : p.started.contains number = true ↔ 0 < t.threads
  supplied : 0 < t.threads → ∃ oracle, c.prices = .ok oracle
  broken : t.isBroken = true → ∃ f, c.prices = .error f

/-- At most one pool has been started since. -/
def OthersAsBefore (number : Nat) (p p' : Host α) : Prop := ∀ k, k ≠ number → p'.started.contains k = p.started.contains k

variable {number : Nat} {p : Host α}

omit [Scalar α] in
theorem othersAsBefore_ensure (number : Nat) (p : Host α) (oracle : Oracle α) :
    OthersAsBefore number p (p.ensure number oracle) := by
  intro k hk
  unfold Host.ensure
  split
  · rfl
  · simp [hk]

omit [Scalar α] in
theorem Houses.same {u : Tenant α} (h : Houses c number p t) (hthreads : u.threads = t.threads)
    (hbroken : u.isBroken = t.isBroken) : Houses c number p u := by
  refine ⟨?_, ?_, ?_⟩
  · rw [hthreads]
    exact h.started
  · rw [hthreads]
    exact h.supplied
  · rw [hbroken]
    exact h.broken

variable (installed) in
theorem act_start {oracle : Oracle α} (hprices : c.prices = .ok oracle) (hbroken : t.isBroken = false)
    (hworkers : t.threads < c.workers) (hsubmitted : t.threads < t.scheduler.submitted) :
    t.act c installed .start = some { t with threads := t.threads + 1 } := by
  change t.start c = _
  unfold start
  rw [if_neg (by simp [hbroken, hworkers, hsubmitted]), hprices]

variable (installed) in
theorem act_start_broken {f : Fault α} (hprices : c.prices = .error f) (hbroken : t.isBroken = false)
    (hworkers : t.threads < c.workers) (hsubmitted : t.threads < t.scheduler.submitted) :
    t.act c installed .start = some { t with isBroken := true } := by
  change t.start c = _
  unfold start
  rw [if_neg (by simp [hbroken, hworkers, hsubmitted]), hprices]

/-- The pool of a host is started when a task is handed in, if it has not been started before. -/
theorem handed_leads (hworkers : 0 < c.workers) (hp : Houses c number p t) (hn : n < t.requests.length) {oracle : Oracle α}
    (hprices : c.prices = .ok oracle) (key : String) (made left : Nat) (s : Scheduler α) :
    ∃ es t', Leads c es (p.installed, t.moved n j (.ready key made left, s))
      ((p.ensure number oracle).installed, t'.moved n j (.waiting key (s.submitted + 1) made left, s.handIn.2)) ∧
      Houses c number (p.ensure number oracle) t' ∧ 0 < t'.threads ∧ t'.requests = t.requests := by
  have hhanded : Leads c [.proceed n] (p.installed, t.moved n j (.ready key made left, s))
      (p.installed, t.moved n j (.waiting key (s.submitted + 1) made left, s.handIn.2)) :=
    .proceed p.installed hn rfl
  by_cases hstarted : p.started.contains number = true
  · have hsame : p.ensure number oracle = p := if_pos hstarted
    rw [hsame]
    exact ⟨_, t, hhanded, hp, hp.started.1 hstarted, rfl⟩
  · have hensure : p.ensure number oracle = { installed := some oracle, started := number :: p.started } := if_neg hstarted
    have hnone : t.threads = 0 := by
      have := mt hp.started.2 hstarted
      omega
    have hbroken : t.isBroken = false := by
      cases hb : t.isBroken with
      | false => rfl
      | true =>
        obtain ⟨f, hf⟩ := hp.broken hb
        rw [hprices] at hf
        cases hf
    have hstart := act_start p.installed hprices
      (show (t.moved n j (.waiting key (s.submitted + 1) made left, s.handIn.2)).isBroken = false from hbroken)
      (show t.threads < c.workers by omega) (show t.threads < s.submitted + 1 by omega)
    have hinstalls : Event.installs c .start = some oracle := by
      rw [Event.installs, hprices]
      rfl
    have hthread := Leads.single hstart
    rw [hinstalls] at hthread
    rw [hensure]
    refine ⟨_, { t with threads := t.threads + 1 }, hhanded.trans hthread, ⟨?_, ?_, ?_⟩, Nat.succ_pos _, rfl⟩
    · simp
    · exact fun _ => ⟨oracle, hprices⟩
    · intro h
      rw [hbroken] at h
      cases h

/-- No thread starts without usable price data. -/
theorem refused_leads (hworkers : 0 < c.workers) (hp : Houses c number p t) (hn : n < t.requests.length) {f : Fault α}
    (hprices : c.prices = .error f) (key : String) (made left : Nat) (s : Scheduler α) :
    ∃ es t', Leads c es (p.installed, t.moved n j (.ready key made left, s))
      (p.installed, t'.moved n j (.waiting key (s.submitted + 1) made left, s.handIn.2)) ∧
      Houses c number p t' ∧ t'.isBroken = true ∧ t'.requests = t.requests := by
  have hhanded : Leads c [.proceed n] (p.installed, t.moved n j (.ready key made left, s))
      (p.installed, t.moved n j (.waiting key (s.submitted + 1) made left, s.handIn.2)) :=
    .proceed p.installed hn rfl
  cases hbroken : t.isBroken with
  | true => exact ⟨_, t, hhanded, hp, hbroken, rfl⟩
  | false =>
    have hnone : t.threads = 0 := by
      by_contra hsome
      obtain ⟨oracle, hok⟩ := hp.supplied (by omega)
      rw [hprices] at hok
      cases hok
    have hstart := act_start_broken p.installed hprices
      (show (t.moved n j (.waiting key (s.submitted + 1) made left, s.handIn.2)).isBroken = false from hbroken)
      (show t.threads < c.workers by omega) (show t.threads < s.submitted + 1 by omega)
    have hquiet : Event.installs c .start = none := by
      rw [Event.installs, hprices]
      rfl
    exact ⟨_, { t with isBroken := true }, hhanded.trans (.quiet hstart hquiet),
      ⟨hp.started, hp.supplied, fun _ => ⟨f, hprices⟩⟩, rfl, rfl⟩

/-- One attempt of a job. -/
theorem attempt_leads (hworkers : 0 < c.workers) (hp : Houses c number p t) (hn : n < t.requests.length) (key : String)
    (made left : Nat) (s : Scheduler α) : ∃ es completion p' t',
      Host.pool number c.prices (requestOf s!"task-{s.submitted + 1}" j) p = (completion, p') ∧
      Leads c es (p.installed, t.moved n j (.ready key made left, s)) (p'.installed, t'.moved n j
        (.settle c.plan key made left (failureOf c.plan j.parameters completion), answered s completion)) ∧
      Houses c number p' t' ∧ t'.requests = t.requests ∧ OthersAsBefore number p p' := by
  cases hprices : c.prices with
  | ok oracle =>
    obtain ⟨es, t', hleads, hp', hthreads, hsame⟩ := handed_leads (j := j) hworkers hp hn hprices key made left s
    have hwork : t'.work (p.ensure number oracle).installed .evaluated =
        some fun request => .answered (Worker.answer (p.ensure number oracle).installed request) := if_pos hthreads
    have hfinish := act_finish (c := c) (j := j) (hsame ▸ hn) (x := (.waiting key (s.submitted + 1) made left, s.handIn.2))
      hwork rfl rfl
    exact ⟨_, _, _, t', rfl, hleads.trans (.quiet hfinish rfl), hp', hsame, othersAsBefore_ensure number p oracle⟩
  | error f =>
    obtain ⟨es, t', hleads, hp', hbroken, hsame⟩ := refused_leads (j := j) hworkers hp hn hprices key made left s
    have hwork : t'.work p.installed .broken = some fun _ => .failed (.pool .notStarted) := if_pos hbroken
    have hfinish := act_finish (c := c) (j := j) (hsame ▸ hn) (x := (.waiting key (s.submitted + 1) made left, s.handIn.2))
      hwork rfl rfl
    exact ⟨_, _, p, t', rfl, hleads.trans (.quiet hfinish rfl), hp', hsame, fun _ _ => rfl⟩

/-- Where attempts to evaluate a job lead its request. -/
def concluded (key : String) : Except (RetryFailure (JobFault α)) (StoredReport α) → RequestStage α
  | .ok r => .keeping key r
  | .error stopped => .failing stopped.cause

theorem settle_sequel (plan : SchedulerPlan α) (key : String) (made left : Nat)
    (answer : Except (JobFault α) (StoredReport α)) : RequestStage.settle plan key made left answer =
      (sequel plan made left answer).elim (concluded key) fun next => .resting key next.1 (made + 1) next.2 := by
  unfold RequestStage.settle sequel
  cases answer with
  | ok r => rfl
  | error e =>
    dsimp only
    split
    · rfl
    cases left with
    | zero => rfl
    | succ n =>
      dsimp only
      cases Retry.delay plan.retry (made + 1 : Nat) <;> rfl

theorem attempts_lead (hworkers : 0 < c.workers) (key : String) (left made : Nat) (s : Scheduler α) {p : Host α}
    {t : Tenant α} (hp : Houses c number p t) (hn : n < t.requests.length) : ∃ es x s' p' t',
      attempts c.plan (Host.pool number c.prices) j made left (s, p) = (x, (s', p')) ∧
      Leads c es (p.installed, t.moved n j (.ready key made left, s)) (p'.installed, t'.moved n j (concluded key x, s')) ∧
      Houses c number p' t' ∧ t'.requests = t.requests ∧ OthersAsBefore number p p' := by
  induction left using Nat.strong_induction_on generalizing made s p t with
  | _ left ih =>
    obtain ⟨es, completion, p', t', hpool, hleads, hp', hsame, hothers⟩ :=
      attempt_leads (j := j) hworkers hp hn key made left s
    have hrun := attempts_sequel c.plan j made left s hpool
    rw [settle_sequel] at hleads
    cases hsequel : sequel c.plan made left (failureOf c.plan j.parameters completion) with
    | inl x =>
      rw [hsequel] at hleads hrun
      exact ⟨es, x, _, p', t', hrun, hleads, hp', hsame, hothers⟩
    | inr next =>
      rw [hsequel] at hleads hrun
      obtain ⟨d, k⟩ := next
      have hn' : n < t'.requests.length := hsame ▸ hn
      have hrested : Leads c [.proceed n] (p'.installed, t'.moved n j (.resting key d (made + 1) k, answered s completion))
          (p'.installed, t'.moved n j (.ready key (made + 1) k, (answered s completion).wait d)) :=
        .proceed p'.installed hn' rfl
      obtain ⟨es', x, s', p'', t'', hmore, hrest, hp'', hsame', hothers'⟩ :=
        ih k (sequel_lt hsequel) (made + 1) ((answered s completion).wait d) hp' hn'
      exact ⟨_, x, s', p'', t'', hrun.trans hmore, (hleads.trans hrested).trans hrest, hp'', hsame'.trans hsame,
        fun i hi => (hothers' i hi).trans (hothers i hi)⟩

/-- A request that comes takes the next position. -/
theorem receive_leads (c : Setup α) (installed : Option (Oracle α)) (t : Tenant α) (j : Job α) :
    Leads c [.receive j] (installed, t)
      (installed, (t.receive j).moved t.requests.length j (.received, t.scheduler)) := by
  refine .quiet ?_ rfl
  have hsame : (t.receive j).moved t.requests.length j (.received, t.scheduler) = t.receive j := by
    simp [moved, receive]
  rw [hsame]
  rfl

omit [Scalar α] in
theorem moved_received {u : Tenant α} (hu : u.requests = (t.receive j).requests) (next : RequestStage α × Scheduler α) :
    (u.moved t.requests.length j next).requests = t.requests ++ [⟨j, next.1⟩] := by
  unfold moved
  dsimp only
  rw [hu]
  simp [receive]

/-- What the attempts came to is kept or reported. -/
theorem concluded_leads (key : String) (s : Scheduler α) (hn : n < t.requests.length)
    (x : Except (RetryFailure (JobFault α)) (StoredReport α)) : ∃ answer s', Leads c [.proceed n]
      (installed, t.moved n j (concluded key x, s)) (installed, t.moved n j (.answered answer, s')) ∧
      ∀ {π : Type} {pool : Pool π α} {q q' : π} {s₀ : Scheduler α},
        attempts c.plan pool j 0 c.plan.retry.retries.toNat (s₀, q) = (x, (s, q')) →
        evaluateAndKeep c.plan pool j key (s₀, q) = (answer, (s', q')) := by
  cases x with
  | ok r =>
    refine ⟨.ok r, s.keep key r, .proceed installed hn rfl, fun h => ?_⟩
    unfold evaluateAndKeep
    rw [bind_run, evaluate_eq j h]
    rfl
  | error stopped =>
    cases hcause : stopped.cause with
    | failure f =>
      refine ⟨.error (.failure f), s.report f, .proceed installed hn ?_, fun h => ?_⟩
      · unfold concluded
        dsimp only
        rw [hcause]
        rfl
      · unfold evaluateAndKeep
        rw [bind_run, evaluate_eq j h]
        unfold evaluated
        dsimp only
        rw [hcause]
        rfl
    | fault f =>
      refine ⟨.error (.fault f), s, .proceed installed hn ?_, fun h => ?_⟩
      · unfold concluded
        dsimp only
        rw [hcause]
        rfl
      · unfold evaluateAndKeep
        rw [bind_run, evaluate_eq j h]
        unfold evaluated
        dsimp only
        rw [hcause]
        rfl

/-- A request that is run while nothing else happens to the scheduler is one order of events. -/
theorem runJob_leads (hworkers : 0 < c.workers) (hp : Houses c number p t) (j : Job α) : ∃ es x p' t',
    runJob c.plan (Host.pool number c.prices) j (t.scheduler, p) = (x, (t'.scheduler, p')) ∧
    Leads c es (p.installed, t) (p'.installed, t') ∧ t'.requests = t.requests ++ [⟨j, .answered x⟩] ∧
    Houses c number p' t' ∧ OthersAsBefore number p p' := by
  have hn : t.requests.length < (t.receive j).requests.length := by simp [receive]
  have hreceived := receive_leads c p.installed t j
  -- the request is looked up
  have hlooked : ∀ {next}, (Pending.mk j .received).proceed c.plan t.scheduler = some next →
      Leads c [.receive j, .proceed t.requests.length] (p.installed, t)
        (p.installed, (t.receive j).moved t.requests.length j next) := fun h =>
    hreceived.trans (.proceed p.installed hn h)
  cases hkey : fingerprint j with
  | error f =>
    have hnext : (Pending.mk j .received).proceed c.plan t.scheduler =
        some (.answered (.error (.fault f)), t.scheduler) := by
      unfold Pending.proceed
      simp only [hkey]
    have hjob : runJob c.plan (Host.pool number c.prices) j (t.scheduler, p) = (.error (.fault f), (t.scheduler, p)) := by
      unfold runJob
      rw [hkey]
      rfl
    exact ⟨_, _, p, (t.receive j).moved t.requests.length j (_, t.scheduler), hjob, hlooked hnext, moved_received rfl _, hp.same rfl rfl, fun _ _ => rfl⟩
  | ok key =>
    cases hlookup : t.scheduler.cache.lookup key with
    | some r =>
      have hnext : (Pending.mk j .received).proceed c.plan t.scheduler =
          some (.answered (.ok r), { t.scheduler with hits := t.scheduler.hits + 1 }) := by
        unfold Pending.proceed lookUp
        simp only [hkey, hlookup]
      exact ⟨_, _, p, _, runJob_hit _ hkey hlookup p, hlooked hnext, moved_received rfl _, hp.same rfl rfl, fun _ _ => rfl⟩
    | none =>
      have hnext : (Pending.mk j .received).proceed c.plan t.scheduler = some (.ready key 0 c.plan.retry.retries.toNat,
          { t.scheduler with misses := t.scheduler.misses + 1 }) := by
        unfold Pending.proceed lookUp
        simp only [hkey, hlookup]
      obtain ⟨es, x, s', p', t', hattempts, hleads, hp', hsame, hothers⟩ := attempts_lead (j := j) hworkers key
        c.plan.retry.retries.toNat 0 { t.scheduler with misses := t.scheduler.misses + 1 }
        (hp.same (u := t.receive j) rfl rfl) hn
      obtain ⟨answer, s'', hanswered, heval⟩ := concluded_leads (c := c) (j := j) key s' (hsame ▸ hn) x
      exact ⟨_, answer, p', _, (runJob_miss _ hkey hlookup p).trans (heval hattempts),
        ((hlooked hnext).trans hleads).trans hanswered, moved_received hsame _, hp'.same rfl rfl, hothers⟩

end Alone

end Tenant

end StrategyLab
