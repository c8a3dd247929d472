/-
What one step of a job in a batch does (`Member.act_spec`), for workers whose answers depend on what
is asked for only: it counts a look-up when the job begins, keeps a worker busy between handing in a
task and its answer, keeps results and reports failures when the job ends with them, and leads
nowhere else than to the outcome that the job is to have anyway.
-/
import StrategyLab.Proofs.Agree
import StrategyLab.Schedule.Batch

namespace StrategyLab

namespace JobStage

variable {α : Type}

/-! ## What a stage stands for -/

/-- The look-ups that were counted for a job. -/
def looked : JobStage α → Nat
  | queued => 0
  | _ => 1

/-- The workers that are kept busy by a job. -/
def busy : JobStage α → Int
  | working _ _ _ _ => 1
  | _ => 0

/-- The failures of a job that ended. -/
def failures : JobStage α → List (Failure α)
  | done (.error f) => [f]
  | _ => []

/-- The result of a job that ended. -/
def result? : JobStage α → Option (StoredReport α)
  | done (.ok r) => some r
  | _ => none

/-- The key that a job goes on with. -/
def key? : JobStage α → Option String
  | ready key _ _ | working key _ _ _ | resting key _ _ _ | keeping key _ => some key
  | _ => none

/-- How many steps may be left; `retries` repetitions are possible. -/
def remaining (retries : Nat) : JobStage α → Nat
  | queued => 3 * retries + 4
  | ready _ _ left => 3 * left + 3
  | working _ _ _ left => 3 * left + 2
  | resting _ _ _ left => 3 * left + 4
  | keeping _ _ | reporting _ => 1
  | done _ => 0

end JobStage

namespace Scheduler

variable {α : Type} [Scalar α]

/-! ## Answers -/

/-- What is made of the answer to a job. -/
def answerTo (plan : SchedulerPlan α) (work : Object α → Completion α) (j : Job α) :
    Except (JobFault α) (StoredReport α) :=
  failureOf plan j.parameters (work (requestOf "" j))

/-- Workers that answer every request in time, whatever the name of the task, and give the same result
for jobs with one fingerprint. -/
structure Steady (plan : SchedulerPlan α) (work : Object α → Completion α) : Prop where
  frees : ∀ request, staysActive (work request) = false
  nameless : ∀ id j, failureOf plan j.parameters (work (requestOf id j)) = answerTo plan work j
  keyed : ∀ j j' key r, fingerprint j = .ok key → fingerprint j' = .ok key → answerTo plan work j = .ok r →
    answerTo plan work j' = .ok r

/-- The outcome of attempts with one answer each, of which `made` were made. -/
def outcomeFrom (plan : SchedulerPlan α) (j : Job α) (answer : Except (JobFault α) (StoredReport α)) :
    (made left : Nat) → Except (Failure α) (StoredReport α)
  | made, left =>
    match answer with
    | .ok r => .ok r
    | .error e =>
      if !isRetryable e then .error (failureFor j e)
      else
        match left with
        | 0 => .error (failureFor j e)
        | n + 1 =>
          match Retry.delay plan.retry (made + 1 : Nat) with
          | .error cause => .error (failureFor j (.fault (.value cause)))
          | .ok _ => outcomeFrom plan j answer (made + 1) n

/-- The outcome of a job for which no result is kept. -/
def outcomeOf (plan : SchedulerPlan α) (work : Object α → Completion α) (j : Job α) :
    Except (Failure α) (StoredReport α) :=
  outcomeFrom plan j (answerTo plan work j) 0 plan.retry.retries.toNat

/-- The outcome that a job in some stage is going to have. -/
def promise (plan : SchedulerPlan α) (work : Object α → Completion α) (j : Job α) :
    JobStage α → Except (Failure α) (StoredReport α)
  | .queued => outcomeOf plan work j
  | .ready _ made left | .working _ _ made left | .resting _ _ made left =>
    outcomeFrom plan j (answerTo plan work j) made left
  | .keeping _ r => .ok r
  | .reporting f => .error f
  | .done o => o

theorem outcomeFrom_ok_iff (plan : SchedulerPlan α) (j : Job α)
    (answer : Except (JobFault α) (StoredReport α)) (r : StoredReport α) :
    ∀ left made, outcomeFrom plan j answer made left = .ok r ↔ answer = .ok r := by
  intro left
  cases answer with
  | ok x =>
    intro made
    unfold outcomeFrom
    simp
  | error e =>
    induction left with
    | zero =>
      intro made
      unfold outcomeFrom
      dsimp only
      split <;> simp
    | succ n ih =>
      intro made
      unfold outcomeFrom
      dsimp only
      split
      · simp
      · split
        · simp
        · exact ih (made + 1)

theorem outcomeOf_ok_iff {plan : SchedulerPlan α} {work : Object α → Completion α} {j : Job α}
    {r : StoredReport α} : outcomeOf plan work j = .ok r ↔ answerTo plan work j = .ok r :=
  outcomeFrom_ok_iff plan j _ r _ _

/-- After an answer a job has its outcome, or rests before the next attempt. -/
theorem settle_spec (plan : SchedulerPlan α) (work : Object α → Completion α) (j : Job α) (key : String)
    (made left retries : Nat) : ∃ stage, settle plan j key made left (answerTo plan work j) = stage ∧
      stage.looked = 1 ∧ stage.busy = 0 ∧ stage.failures = [] ∧ stage.result? = none ∧
      (∀ k, stage.key? = some k → k = key) ∧ stage.remaining retries < 3 * left + 2 ∧
      promise plan work j stage = outcomeFrom plan j (answerTo plan work j) made left := by
  refine ⟨_, rfl, ?_⟩
  unfold settle outcomeFrom
  cases hanswer : answerTo plan work j with
  | ok r => exact ⟨rfl, rfl, rfl, rfl, fun k hk => (Option.some.inj hk).symm, by simp [JobStage.remaining], rfl⟩
  | error e =>
    dsimp only
    split
    · exact ⟨rfl, rfl, rfl, rfl, nofun, by simp [JobStage.remaining], rfl⟩
    cases left with
    | zero => exact ⟨rfl, rfl, rfl, rfl, nofun, by simp [JobStage.remaining], rfl⟩
    | succ n =>
      dsimp only
      cases hdelay : Retry.delay plan.retry (made + 1 : Nat) with
      | error cause => exact ⟨rfl, rfl, rfl, rfl, nofun, by simp [JobStage.remaining], rfl⟩
      | ok d =>
        refine ⟨rfl, rfl, rfl, rfl, fun k hk => (Option.some.inj hk).symm, by simp [JobStage.remaining]; omega, ?_⟩
        unfold promise
        rw [hanswer]

/-! ## Kept results -/

/-- Every result that is kept was once the answer to a job with its key. -/
def Sound (plan : SchedulerPlan α) (work : Object α → Completion α) (s : Scheduler α) : Prop :=
  ∀ key r, s.cache.lookup key = some r → ∃ j, fingerprint j = .ok key ∧ answerTo plan work j = .ok r

omit [Scalar α] in
theorem lookup_keep (s : Scheduler α) (key : String) (r : StoredReport α) (key' : String) :
    (s.keep key r).cache.lookup key' = if key' = key then some r else s.cache.lookup key' := by
  show (s.cache.filter (fun entry => entry.1 != key) ++ [(key, r)]).lookup key' = _
  rw [List.lookup_append, lookup_dropped]
  split
  · rename_i heq
    rw [heq, List.lookup_cons_self, Option.none_or]
  · rename_i hne
    rw [List.lookup_cons, beq_eq_false_iff_ne.2 hne, List.lookup_nil, Option.or_none]

omit [Scalar α] in
/-- A step with no result leaves what is kept as it was. -/
theorem lookup_unchanged {s s' : Scheduler α} {stage : JobStage α} (hresult : stage.result? = none)
    (hcache : s'.cache = s.cache) (key key' : String) : s'.cache.lookup key' =
      if key' = key then stage.result? <|> s.cache.lookup key' else s.cache.lookup key' := by
  rw [hresult, hcache]
  split <;> rfl

/-- What a step of a job does to the job and to its scheduler. -/
structure Acted (plan : SchedulerPlan α) (work : Object α → Completion α) (m : Member α) (key : String)
    (s : Scheduler α) (stage : JobStage α) (s' : Scheduler α) : Prop where
  looked : s'.hits + s'.misses + m.stage.looked = s.hits + s.misses + stage.looked
  active : s'.active + m.stage.busy = s.active + stage.busy
  reported : ∃ new, s'.reported = s.reported ++ new ∧ stage.failures = m.stage.failures ++ new
  cache : ∀ key', s'.cache.lookup key' =
    if key' = key then stage.result? <|> s.cache.lookup key' else s.cache.lookup key'
  fresh : m.stage.result? = none
  keyed : ∀ k, stage.key? = some k → k = key
  remaining : stage.remaining plan.retry.retries.toNat < m.stage.remaining plan.retry.retries.toNat
  promised : promise plan work m.job stage = promise plan work m.job m.stage

/-- The steps of a job whose fingerprint is the key that it goes on with. -/
theorem act_spec {plan : SchedulerPlan α} {work : Object α → Completion α} (hwork : Steady plan work)
    {m : Member α} {key : String} (hkey : fingerprint m.job = .ok key)
    (hkeyed : ∀ k, m.stage.key? = some k → k = key) {s : Scheduler α} (hsound : Sound plan work s)
    {stage : JobStage α} {s' : Scheduler α} (h : m.act plan work s = some (stage, s')) :
    Acted plan work m key s stage s' := by
  obtain ⟨j, st⟩ := m
  dsimp only at hkey hkeyed
  unfold Member.act at h
  cases st with
  | queued =>
    dsimp only at h
    rw [hkey] at h
    dsimp only at h
    cases hlookup : s.cache.lookup key with
    | some r =>
      simp only [lookUp, hlookup] at h
      cases h
      refine ⟨by simp [JobStage.looked]; omega, rfl, ⟨[], by simp, rfl⟩, fun key' => ?_, rfl, nofun,
        by simp [JobStage.remaining], ?_⟩
      · split
        · rename_i heq; rw [heq, hlookup]; rfl
        · rfl
      · obtain ⟨j', hkey', hanswer⟩ := hsound key r hlookup
        exact (outcomeOf_ok_iff.2 (hwork.keyed j' j key r hkey' hkey hanswer)).symm
    | none =>
      simp only [lookUp, hlookup] at h
      cases h
      exact ⟨by simp [JobStage.looked]; omega, rfl, ⟨[], by simp, rfl⟩, lookup_unchanged rfl rfl key, rfl,
        fun k hk => (Option.some.inj hk).symm, by simp [JobStage.remaining], rfl⟩
  | ready k made left =>
    cases h
    obtain rfl := hkeyed k rfl
    exact ⟨rfl, by simp [JobStage.busy], ⟨[], by simp, rfl⟩, lookup_unchanged rfl rfl k, rfl,
      fun k hk => (Option.some.inj hk).symm, by simp [JobStage.remaining], rfl⟩
  | working k task made left =>
    dsimp only at h
    rw [hwork.nameless, hwork.frees] at h
    cases h
    obtain rfl := hkeyed k rfl
    obtain ⟨stage, rfl, hlooked, hbusy, hfailures, hresult, hk, hremaining, hpromise⟩ :=
      settle_spec plan work j k made left plan.retry.retries.toNat
    refine ⟨?_, ?_, ⟨[], by simp [release], ?_⟩, lookup_unchanged hresult rfl k, rfl, hk, hremaining, hpromise⟩
    · rw [hlooked]; rfl
    · rw [hbusy]; simp [JobStage.busy, release]
    · rw [hfailures]; rfl
  | resting k d made left =>
    cases h
    obtain rfl := hkeyed k rfl
    exact ⟨rfl, rfl, ⟨[], by simp [wait], rfl⟩, lookup_unchanged rfl rfl k, rfl,
      fun k hk => (Option.some.inj hk).symm, by simp [JobStage.remaining], rfl⟩
  | keeping k r =>
    cases h
    obtain rfl := hkeyed k rfl
    refine ⟨rfl, rfl, ⟨[], by simp [keep], rfl⟩, fun key' => ?_, rfl, nofun, by simp [JobStage.remaining], rfl⟩
    rw [lookup_keep]
    rfl
  | reporting f =>
    cases h
    exact ⟨rfl, rfl, ⟨[f], rfl, rfl⟩, lookup_unchanged rfl rfl key, rfl, nofun, by simp [JobStage.remaining], rfl⟩
  | done o => cases h

end Scheduler

end StrategyLab
