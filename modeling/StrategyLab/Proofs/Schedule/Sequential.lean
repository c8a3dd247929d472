/-
Evaluating the jobs of a batch one after the other is one order of their steps (`runBatch_reaches`).
-/
import Mathlib.Tactic
import StrategyLab.Schedule.Batch

namespace StrategyLab.Batch

open Scheduler

variable {α : Type} [Scalar α] {plan : SchedulerPlan α} {work : Object α → Completion α} {limit : Nat}

/-- The pool of workers that answer from a request alone. -/
def answering (π : Type) (work : Object α → Completion α) : Pool π α := fun request p => (work request, p)

/-- A run leads from one batch to another. -/
def Reaches (plan : SchedulerPlan α) (work : Object α → Completion α) (limit : Nat) (b b' : Batch α) : Prop :=
  ∃ n, Run plan work limit n b b'

theorem Reaches.refl (b : Batch α) : Reaches plan work limit b b := ⟨0, .none b⟩

theorem Reaches.step {a b c : Batch α} (h : Reaches plan work limit a b) (hstep : Step plan work limit b c) :
    Reaches plan work limit a c := by
  obtain ⟨n, hrun⟩ := h
  exact ⟨n + 1, .more hrun hstep⟩

theorem Reaches.trans {a b c : Batch α} (h : Reaches plan work limit a b) (h' : Reaches plan work limit b c) :
    Reaches plan work limit a c := by
  obtain ⟨n, hrun⟩ := h'
  induction hrun with
  | none => exact h
  | more _ hstep ih => exact (ih h).step hstep

/-- A step of a job that has begun. -/
theorem Reaches.act (before after : List (Member α)) {j : Job α} {stage stage' : JobStage α} {s s' : Scheduler α}
    (hbegun : stage.isQueued = false) (hact : Member.act plan work ⟨j, stage⟩ s = some (stage', s')) :
    Reaches plan work limit ⟨s, before ++ ⟨j, stage⟩ :: after⟩ ⟨s', before ++ ⟨j, stage'⟩ :: after⟩ :=
  (Reaches.refl _).step
    (.act (m := ⟨j, stage⟩) (fun h => by rw [show stage.isQueued = true from h] at hbegun; cases hbegun) hact)

/-- Where a job goes from what the attempts to evaluate it came to. -/
def concluded (j : Job α) (key : String) :
    Except (RetryFailure (JobFault α)) (StoredReport α) → JobStage α
  | .ok r => .keeping key r
  | .error stopped => .reporting (failureFor j stopped.cause)

/-- The delay before the next attempt. -/
def delayBefore (plan : SchedulerPlan α) (attempt : Nat) : Except (JobFault α) (Num α) :=
  (Retry.delay plan.retry attempt).mapError fun cause => .fault (.value cause)

/-- The attempts to evaluate a job, from one that follows `made` others. -/
def attempts {π : Type} (plan : SchedulerPlan α) (pool : Pool π α) (j : Job α) (made left : Nat) :
    Scheduler.Run π α (Except (RetryFailure (JobFault α)) (StoredReport α)) :=
  Retry.attemptFrom (dispatch plan pool j) isRetryable (delayBefore plan) (fun d => change (·.wait d)) made left

omit [Scalar α] in
theorem bind_run {σ β γ : Type} (x : StateM σ β) (f : β → StateM σ γ) (s : σ) : (x >>= f) s = f (x s).1 (x s).2 := rfl

/-- The scheduler after a task that it handed in is answered. -/
def answered (s : Scheduler α) (c : Completion α) : Scheduler α :=
  if staysActive c then s.handIn.2 else s.handIn.2.release

variable (plan) in
/-- One attempt, and what follows it. -/
theorem attempts_eq {π : Type} {pool : Pool π α} (j : Job α) (made left : Nat) (s : Scheduler α) {p p' : π}
    {c : Completion α} (hc : pool (requestOf s!"task-{s.submitted + 1}" j) p = (c, p')) :
    attempts plan pool j made left (s, p) =
      match failureOf plan j.parameters c with
      | .ok r => (.ok r, (answered s c, p'))
      | .error e =>
        if !isRetryable e then (.error (.refused e), (answered s c, p'))
        else
          match left with
          | 0 => (.error (.exhausted (made + 1) e), (answered s c, p'))
          | n + 1 =>
            match delayBefore plan (made + 1) with
            | .error e => (.error (.refused e), (answered s c, p'))
            | .ok d => attempts plan pool j (made + 1) n ((answered s c).wait d, p') := by
  have hdispatch : dispatch plan pool j (s, p) =
      (failureOf plan j.parameters (pool (requestOf s!"task-{s.submitted + 1}" j) p).1,
        (answered s (pool (requestOf s!"task-{s.submitted + 1}" j) p).1,
          (pool (requestOf s!"task-{s.submitted + 1}" j) p).2)) := rfl
  rw [hc] at hdispatch
  unfold attempts
  rw [Retry.attemptFrom.eq_def]
  dsimp only
  rw [bind_run, hdispatch]
  cases failureOf plan j.parameters c with
  | ok r => rfl
  | error e =>
    dsimp only
    split
    · rfl
    cases left with
    | zero => rfl
    | succ n =>
      dsimp only
      cases delayBefore plan (made + 1) <;> rfl

/-- What follows an answer: the attempts are over, or after a delay there are the next one and so many more. -/
def sequel (plan : SchedulerPlan α) (made left : Nat) :
    Except (JobFault α) (StoredReport α) → Except (RetryFailure (JobFault α)) (StoredReport α) ⊕ (Num α × Nat)
  | .ok r => .inl (.ok r)
  | .error e =>
    if !isRetryable e then .inl (.error (.refused e))
    else
      match left with
      | 0 => .inl (.error (.exhausted (made + 1) e))
      | n + 1 =>
        match Retry.delay plan.retry (made + 1 : Nat) with
        | .error cause => .inl (.error (.refused (.fault (.value cause))))
        | .ok d => .inr (d, n)

theorem sequel_lt {made left : Nat} {answer : Except (JobFault α) (StoredReport α)} {next : Num α × Nat}
    (h : sequel plan made left answer = .inr next) : next.2 < left := by
  unfold sequel at h
  split at h
  · cases h
  split at h
  · cases h
  split at h
  · cases h
  split at h
  · cases h
  · cases h
    exact Nat.lt_succ_self _

variable (plan) in
theorem attempts_sequel {π : Type} {pool : Pool π α} (j : Job α) (made left : Nat) (s : Scheduler α) {p p' : π}
    {c : Completion α} (hc : pool (requestOf s!"task-{s.submitted + 1}" j) p = (c, p')) :
    attempts plan pool j made left (s, p) =
      (sequel plan made left (failureOf plan j.parameters c)).elim (fun x => (x, (answered s c, p')))
        fun next => attempts plan pool j (made + 1) next.2 ((answered s c).wait next.1, p') := by
  rw [attempts_eq plan j made left s hc]
  unfold sequel delayBefore
  cases failureOf plan j.parameters c with
  | ok r => rfl
  | error e =>
    dsimp only
    split
    · rfl
    cases left with
    | zero => rfl
    | succ n =>
      dsimp only
      cases Retry.delay plan.retry (made + 1 : Nat) <;> rfl

theorem settle_sequel (j : Job α) (key : String) (made left : Nat) (answer : Except (JobFault α) (StoredReport α)) :
    settle plan j key made left answer = (sequel plan made left answer).elim (concluded j key)
      fun next => .resting key next.1 (made + 1) next.2 := by
  unfold settle sequel
  cases answer with
  | ok r => rfl
  | error e =>
    dsimp only
    split
    · rfl
    cases left with
    | zero => rfl
    | succ n =>
      dsimp only
      cases Retry.delay plan.retry (made + 1 : Nat) <;> rfl

variable (plan work limit) in
/-- One attempt of a job of a batch. -/
theorem attempt_reaches (before after : List (Member α)) (j : Job α) (key : String) (made left : Nat)
    (s : Scheduler α) : Reaches plan work limit ⟨s, before ++ ⟨j, .ready key made left⟩ :: after⟩
      ⟨answered s (work (requestOf s!"task-{s.submitted + 1}" j)), before ++ ⟨j, settle plan j key made left
        (failureOf plan j.parameters (work (requestOf s!"task-{s.submitted + 1}" j)))⟩ :: after⟩ :=
  (Reaches.act before after (rfl : (JobStage.ready key made left).isQueued = false) rfl).trans
    (.act before after (s := s.handIn.2) rfl rfl)

variable (plan work limit) in
theorem attempts_reach {π : Type} (before after : List (Member α)) (j : Job α) (key : String) (p : π)
    (left made : Nat) (s : Scheduler α) : ∃ x s', attempts plan (answering π work) j made left (s, p) = (x, (s', p)) ∧
      Reaches plan work limit ⟨s, before ++ ⟨j, .ready key made left⟩ :: after⟩
        ⟨s', before ++ ⟨j, concluded j key x⟩ :: after⟩ := by
  induction left using Nat.strong_induction_on generalizing made s with
  | _ left ih =>
    have hattempt := attempt_reaches plan work limit before after j key made left s
    have hpool : answering π work (requestOf s!"task-{s.submitted + 1}" j) p =
        (work (requestOf s!"task-{s.submitted + 1}" j), p) := rfl
    have hrun := attempts_sequel plan j made left s hpool
    rw [settle_sequel] at hattempt
    cases hsequel : sequel plan made left (failureOf plan j.parameters (work (requestOf s!"task-{s.submitted + 1}" j))) with
    | inl x =>
      rw [hsequel] at hattempt hrun
      exact ⟨x, _, hrun, hattempt⟩
    | inr next =>
      rw [hsequel] at hattempt hrun
      obtain ⟨x, s', hrest, hreaches⟩ := ih next.2 (sequel_lt hsequel) (made + 1) ((answered s _).wait next.1)
      exact ⟨x, s', hrun.trans hrest, (hattempt.trans (.act before after rfl rfl)).trans hreaches⟩

/-- What attempts came to, and the scheduler after a failure of theirs is reported. -/
def evaluated (s : Scheduler α) : Except (RetryFailure (JobFault α)) (StoredReport α) →
    Except (JobFault α) (StoredReport α) × Scheduler α
  | .ok r => (.ok r, s)
  | .error stopped =>
    (.error stopped.cause,
      match stopped.cause with
      | .failure f => s.report f
      | .fault _ => s)

theorem evaluate_eq {π : Type} {pool : Pool π α} (j : Job α) {s s' : Scheduler α} {p p' : π}
    {x : Except (RetryFailure (JobFault α)) (StoredReport α)}
    (h : attempts plan pool j 0 plan.retry.retries.toNat (s, p) = (x, (s', p'))) :
    evaluate plan pool j (s, p) = ((evaluated s' x).1, ((evaluated s' x).2, p')) := by
  unfold attempts delayBefore at h
  unfold evaluate Retry.run
  rw [bind_run, h]
  cases x with
  | ok r => rfl
  | error stopped =>
    unfold evaluated
    dsimp only
    cases stopped.cause <;> rfl

/-- Evaluates a job and keeps its result. -/
def evaluateAndKeep {π : Type} (plan : SchedulerPlan α) (pool : Pool π α) (j : Job α) (key : String) :
    Scheduler.Run π α (Except (JobFault α) (StoredReport α)) := do
  match ← evaluate plan pool j with
  | .ok r => do
    change (·.keep key r)
    pure (Except.ok r)
  | .error e => pure (Except.error e)

omit [Scalar α] in
theorem get_run {σ : Type} (s : σ) : (get : StateM σ σ) s = (s, s) := rfl

omit [Scalar α] in
theorem set_run {σ : Type} (s s' : σ) : (set s' : StateM σ Unit) s = ((), s') := rfl

theorem runJob_hit {π : Type} (pool : Pool π α) {j : Job α} {key : String} (hkey : fingerprint j = .ok key)
    {s : Scheduler α} {r : StoredReport α} (hhit : s.cache.lookup key = some r) (p : π) :
    runJob plan pool j (s, p) = (.ok r, ({ s with hits := s.hits + 1 }, p)) := by
  have hlookup : s.lookUp key = (some r, { s with hits := s.hits + 1 }) := by unfold lookUp; rw [hhit]
  simp only [runJob, hkey, bind_run, get_run, hlookup, set_run]
  rfl

theorem runJob_miss {π : Type} (pool : Pool π α) {j : Job α} {key : String} (hkey : fingerprint j = .ok key)
    {s : Scheduler α} (hmiss : s.cache.lookup key = none) (p : π) :
    runJob plan pool j (s, p) = evaluateAndKeep plan pool j key ({ s with misses := s.misses + 1 }, p) := by
  have hlookup : s.lookUp key = (none, { s with misses := s.misses + 1 }) := by unfold lookUp; rw [hmiss]
  simp only [runJob, hkey, bind_run, get_run, hlookup, set_run]
  rfl

/-- What becomes of a job without a kept result: the result is kept, or the failure is reported. -/
def settled (j : Job α) (key : String) (s : Scheduler α) :
    Except (RetryFailure (JobFault α)) (StoredReport α) → Except (Failure α) (StoredReport α) × Scheduler α
  | .ok r => (.ok r, s.keep key r)
  | .error stopped => (.error (failureFor j stopped.cause), s.report (failureFor j stopped.cause))

theorem runMember_miss {π : Type} {j : Job α} {key : String} (hkey : fingerprint j = .ok key) {s : Scheduler α}
    (hmiss : s.cache.lookup key = none) (p : π) {s' : Scheduler α}
    {x : Except (RetryFailure (JobFault α)) (StoredReport α)}
    (h : attempts plan (answering π work) j 0 plan.retry.retries.toNat ({ s with misses := s.misses + 1 }, p) = (x, (s', p))) :
    runMember plan (answering π work) j (s, p) = ((settled j key s' x).1, ((settled j key s' x).2, p)) := by
  unfold runMember
  rw [bind_run, runJob_miss _ hkey hmiss]
  unfold evaluateAndKeep
  rw [bind_run, evaluate_eq j h]
  cases x with
  | ok r => rfl
  | error stopped =>
    unfold evaluated settled
    dsimp only
    cases stopped.cause <;> rfl

theorem runMember_hit {π : Type} (pool : Pool π α) {j : Job α} {key : String} (hkey : fingerprint j = .ok key)
    {s : Scheduler α} {r : StoredReport α} (hhit : s.cache.lookup key = some r) (p : π) :
    runMember plan pool j (s, p) = (.ok r, ({ s with hits := s.hits + 1 }, p)) := by
  unfold runMember
  rw [bind_run, runJob_hit pool hkey hhit]
  rfl

/-- A job whose first attempt gives a result. -/
theorem runMember_answered {π : Type} {j : Job α} {key : String} (hkey : fingerprint j = .ok key) {s : Scheduler α}
    (hmiss : s.cache.lookup key = none) (p : π) {c : Completion α}
    (hc : work (requestOf s!"task-{s.submitted + 1}" j) = c) {r : StoredReport α}
    (hr : failureOf plan j.parameters c = .ok r) : runMember plan (answering π work) j (s, p) =
      (.ok r, ((answered { s with misses := s.misses + 1 } c).keep key r, p)) := by
  have hattempts := attempts_eq plan j 0 plan.retry.retries.toNat { s with misses := s.misses + 1 }
    (show answering π work _ p = (c, p) from congrArg (·, p) hc)
  rw [hr] at hattempts
  exact runMember_miss hkey hmiss p hattempts

/-- A job whose first attempt fails and is not repeated. -/
theorem runMember_refused {π : Type} {j : Job α} {key : String} (hkey : fingerprint j = .ok key) {s : Scheduler α}
    (hmiss : s.cache.lookup key = none) (p : π) {c : Completion α}
    (hc : work (requestOf s!"task-{s.submitted + 1}" j) = c) {f : Failure α}
    (hf : failureOf plan j.parameters c = .error (.failure f)) (hfinal : f.isRetryable = false) :
    runMember plan (answering π work) j (s, p) =
      (.error f, ((answered { s with misses := s.misses + 1 } c).report f, p)) := by
  have hattempts := attempts_eq plan j 0 plan.retry.retries.toNat { s with misses := s.misses + 1 }
    (show answering π work _ p = (c, p) from congrArg (·, p) hc)
  have hrefused : (!isRetryable (.failure f)) = true := by
    show (!f.isRetryable) = true
    rw [hfinal]
    rfl
  rw [hf] at hattempts
  dsimp only at hattempts
  rw [if_pos hrefused] at hattempts
  exact runMember_miss hkey hmiss p hattempts

theorem runBatch_cons {π : Type} (pool : Pool π α) {j : Job α} {s s' : Scheduler α} {p p' : π}
    {o : Except (Failure α) (StoredReport α)} (hmember : runMember plan pool j (s, p) = (o, (s', p')))
    (rest : List (Job α)) : runBatch plan pool (j :: rest) (s, p) =
      (o :: (runBatch plan pool rest (s', p')).1, (runBatch plan pool rest (s', p')).2) := by
  rw [runBatch, bind_run, hmember]
  rfl

variable (plan work) in
/-- A job of a batch whose turn it is goes through its steps to the outcome that it has alone. -/
theorem runMember_reaches {π : Type} (hlimit : 0 < limit) {before after : List (Member α)}
    (hbefore : ∀ m ∈ before, m.stage.isDone = true) (hafter : ∀ m ∈ after, m.stage.isQueued = true) (j : Job α)
    (s : Scheduler α) (p : π) : ∃ o s', runMember plan (answering π work) j (s, p) = (o, (s', p)) ∧
      Reaches plan work limit ⟨s, before ++ ⟨j, .queued⟩ :: after⟩ ⟨s', before ++ ⟨j, .done o⟩ :: after⟩ := by
  have hbegin : ∀ {stage : JobStage α} {s' : Scheduler α}, Member.act plan work ⟨j, .queued⟩ s = some (stage, s') →
      Reaches plan work limit ⟨s, before ++ ⟨j, .queued⟩ :: after⟩ ⟨s', before ++ ⟨j, stage⟩ :: after⟩ := by
    intro stage s' hact
    refine (Reaches.refl _).step (.act (m := ⟨j, .queued⟩) (fun _ => ⟨fun m hm => ?_, ?_⟩) hact)
    · have := hbefore m hm
      cases hstage : m.stage <;> rw [hstage] at this <;> simp [JobStage.isDone, JobStage.isQueued] at this ⊢
    · rw [List.countP_eq_zero.2]
      · exact hlimit
      · intro m hm
        rcases List.mem_append.1 hm with hm | hm
        · simp [JobStage.isUnderWay, hbefore m hm]
        · simp [JobStage.isUnderWay, hafter m hm]
  cases hkey : fingerprint j with
  | error f =>
    have hact : Member.act plan work ⟨j, .queued⟩ s = some (.reporting (failureOfFault f j.parameters), s) := by
      unfold Member.act
      dsimp only
      rw [hkey]
    refine ⟨.error (failureOfFault f j.parameters), s.report (failureOfFault f j.parameters), ?_,
      (hbegin hact).trans (.act before after rfl rfl)⟩
    unfold runMember runJob
    rw [hkey]
    rfl
  | ok key =>
    cases hlookup : s.cache.lookup key with
    | some r =>
      refine ⟨.ok r, { s with hits := s.hits + 1 }, runMember_hit _ hkey hlookup p, hbegin ?_⟩
      simp only [Member.act, hkey, lookUp, hlookup]
    | none =>
      obtain ⟨x, s', hattempts, hreaches⟩ := attempts_reach plan work limit before after j key p
        plan.retry.retries.toNat 0 { s with misses := s.misses + 1 }
      refine ⟨_, _, runMember_miss hkey hlookup p hattempts, (hbegin ?_).trans (hreaches.trans ?_)⟩
      · simp only [Member.act, hkey, lookUp, hlookup]
      · cases x <;> exact .act before after rfl rfl

variable (plan work) in
/-- The jobs of a batch, evaluated one after the other, come to the outcomes of one of its runs. -/
theorem runBatch_reaches {π : Type} (hlimit : 0 < limit) (p : π) : ∀ (jobs : List (Job α)) (before : List (Member α))
    (s : Scheduler α), (∀ m ∈ before, m.stage.isDone = true) →
      ∃ os s', runBatch plan (answering π work) jobs (s, p) = (os, (s', p)) ∧ os.length = jobs.length ∧
        Reaches plan work limit ⟨s, before ++ (start s jobs).members⟩
          ⟨s', before ++ jobs.zipWith (fun j o => ⟨j, .done o⟩) os⟩
  | [], before, s, _ => ⟨[], s, rfl, rfl, .refl _⟩
  | j :: rest, before, s, hbefore => by
    have hqueued : ∀ m ∈ (start s rest).members, m.stage.isQueued = true := fun m hm => by
      obtain ⟨j', -, rfl⟩ := List.mem_map.1 hm
      rfl
    obtain ⟨o, s₁, hmember, hfirst⟩ := runMember_reaches plan work hlimit hbefore hqueued j s p
    obtain ⟨os, s', hrest, hlength, hothers⟩ := runBatch_reaches hlimit p rest (before ++ [⟨j, .done o⟩]) s₁ fun m hm => by
      rcases List.mem_append.1 hm with hm | hm
      · exact hbefore m hm
      · rw [List.mem_singleton.1 hm]; rfl
    refine ⟨o :: os, s', ?_, by simp [hlength], hfirst.trans ?_⟩
    · rw [runBatch_cons _ hmember, hrest]
    · rw [List.append_assoc, List.append_assoc] at hothers
      exact hothers

end StrategyLab.Batch
