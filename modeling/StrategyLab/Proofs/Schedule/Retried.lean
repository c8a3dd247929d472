/-
Requests that are tried again. The workers answer by a script, one completion for each call
(`scripted`). A request is repeated up to the first call that ends it, as often as the plan allows
(`repetitions`); its last call decides what is answered, kept and reported, and the calls before it leave
nothing but delays (`Retried`). It is so exactly when every delay before a repetition can be computed
(`runJob_retried`).
-/
import StrategyLab.Proofs.Schedule.Act
import StrategyLab.Proofs.Schedule.Backoff
import StrategyLab.Proofs.Schedule.Fingerprint
import StrategyLab.Proofs.Schedule.Sequential
import StrategyLab.Proofs.Simulation.Written

namespace StrategyLab.Scheduler

open Batch (attempts attempts_sequel sequel answered evaluated evaluate_eq evaluateAndKeep runJob_miss bind_run)

variable {α : Type} [Scalar α] {plan : SchedulerPlan α} {j : Job α} {script : Nat → Completion α}

/-! ## Scripts -/

/-- The pool whose workers answer by a script, whatever they are asked for. -/
def scripted (script : Nat → Completion α) : Pool Nat α := fun _ n => (script n, n + 1)

/-- Whether a call ends a request: with a result, with a failure that is not worth repeating, or with
anything else that goes wrong. -/
def isFinal (plan : SchedulerPlan α) (j : Job α) (c : Completion α) : Bool :=
  match failureOf plan j.parameters c with
  | .ok _ => true
  | .error e => !isRetryable e

/-- How often a request is to be repeated: until a call ends it, as often as the plan allows. -/
def repetitions (plan : SchedulerPlan α) (j : Job α) (script : Nat → Completion α) : Nat :=
  (List.range plan.retry.retries.toNat).findIdx fun n => isFinal plan j (script n)

/-- So many repetitions are those before the first call that ends a request, unless no more are allowed. -/
structure Repeated (plan : SchedulerPlan α) (j : Job α) (script : Nat → Completion α) (n : Nat) : Prop where
  allowed : n ≤ plan.retry.retries.toNat
  before : ∀ i < n, isFinal plan j (script i) = false
  last : isFinal plan j (script n) = true ∨ n = plan.retry.retries.toNat

theorem repeated (plan : SchedulerPlan α) (j : Job α) (script : Nat → Completion α) :
    Repeated plan j script (repetitions plan j script) := by
  have hlength : (List.range plan.retry.retries.toNat).length = plan.retry.retries.toNat := List.length_range
  have hallowed : repetitions plan j script ≤ plan.retry.retries.toNat := by
    rw [← hlength]
    exact List.findIdx_le_length
  refine ⟨hallowed, fun i hi => ?_, ?_⟩
  · have hnot := List.not_of_lt_findIdx (show i < (List.range _).findIdx _ from hi)
    rw [List.getElem_range] at hnot
    simpa using hnot
  · rcases hallowed.lt_or_eq with hlt | heq
    · have hfound := List.findIdx_getElem (w := show (List.range _).findIdx _ < (List.range _).length by rwa [hlength])
      rw [List.getElem_range] at hfound
      exact .inl hfound
    · exact .inr heq

/-- There is one number of such repetitions. -/
theorem Repeated.eq {m n : Nat} (hm : Repeated plan j script m) (hn : Repeated plan j script n) : m = n := by
  have hle : ∀ {a b : Nat}, Repeated plan j script a → Repeated plan j script b → a ≤ b := by
    intro a b ha hb
    by_contra hlt
    rcases hb.last with hfinal | hexhausted
    · rw [ha.before b (not_le.1 hlt)] at hfinal
      cases hfinal
    · exact hlt (hexhausted ▸ ha.allowed)
  exact le_antisymm (hle hm hn) (hle hn hm)

/-! ## Attempts -/

omit [Scalar α] in
/-- An answer changes nothing but the counts of tasks. -/
theorem answered_frame (s : Scheduler α) (c : Completion α) : (answered s c).submitted = s.submitted + 1 ∧
    (answered s c).delays = s.delays ∧ (answered s c).cache = s.cache ∧ (answered s c).reported = s.reported := by
  unfold answered
  split <;> exact ⟨rfl, rfl, rfl, rfl⟩

/-- Attempts that follow `made` others: they are repeated `n` times, with nothing to show for it but the
delays, and end with what the last call comes to, or because the next delay cannot be computed. -/
structure Course (plan : SchedulerPlan α) (j : Job α) (script : Nat → Completion α) (made left : Nat)
    (s : Scheduler α) (n : Nat) (answer : Except (JobFault α) (StoredReport α)) (s' : Scheduler α) : Prop where
  allowed : n ≤ left
  before : ∀ i < n, isFinal plan j (script (made + i)) = false ∧ plan.retry.canDouble (made + i) = true
  last : isFinal plan j (script (made + n)) = true ∨ n = left → answer = failureOf plan j.parameters (script (made + n))
  stuck : isFinal plan j (script (made + n)) = false → n < left →
    plan.retry.canDouble (made + n) = false ∧ answer = .error (.fault (.value .tooLarge))
  submitted : s'.submitted = s.submitted + (n + 1)
  delays : s'.delays = s.delays ++ (List.range' made n).map plan.retry.pause
  cache : s'.cache = s.cache
  reported : s'.reported = s.reported

/-- The last attempt. -/
theorem Course.one {made left : Nat} {s : Scheduler α} {answer : Except (JobFault α) (StoredReport α)}
    (hlast : isFinal plan j (script made) = true ∨ left = 0 → answer = failureOf plan j.parameters (script made))
    (hstuck : isFinal plan j (script made) = false → 0 < left →
      plan.retry.canDouble made = false ∧ answer = .error (.fault (.value .tooLarge))) :
    Course plan j script made left s 0 answer (answered s (script made)) := by
  obtain ⟨hsubmitted, hdelays, hcache, hreported⟩ := answered_frame s (script made)
  exact ⟨left.zero_le, nofun, fun h => hlast (h.imp_right Eq.symm), hstuck, hsubmitted, by simpa using hdelays, hcache,
    hreported⟩

/-- An attempt that is repeated. -/
theorem Course.more {made left n : Nat} {s s' : Scheduler α} {answer : Except (JobFault α) (StoredReport α)}
    (hagain : isFinal plan j (script made) = false) (hdelay : plan.retry.canDouble made = true)
    (h : Course plan j script (made + 1) left ((answered s (script made)).wait (plan.retry.pause made)) n answer s') :
    Course plan j script made (left + 1) s (n + 1) answer s' := by
  obtain ⟨hsubmitted, hdelays, hcache, hreported⟩ := answered_frame s (script made)
  have hshift : ∀ i, made + (i + 1) = made + 1 + i := fun i => by omega
  refine ⟨Nat.succ_le_succ h.allowed, fun i hi => ?_, fun hend => ?_, fun hopen hleft => ?_, ?_, ?_, ?_, ?_⟩
  · cases i with
    | zero => exact ⟨hagain, hdelay⟩
    | succ i =>
      rw [hshift]
      exact h.before i (Nat.lt_of_succ_lt_succ hi)
  · rw [hshift] at hend ⊢
    exact h.last (hend.imp_right Nat.succ.inj)
  · rw [hshift] at hopen ⊢
    exact h.stuck hopen (Nat.lt_of_succ_lt_succ hleft)
  · rw [h.submitted]
    show (answered s (script made)).submitted + (n + 1) = _
    rw [hsubmitted]
    omega
  · rw [h.delays]
    show ((answered s (script made)).delays ++ [plan.retry.pause made]) ++ _ = _
    rw [hdelays, List.append_assoc, List.range'_succ, List.map_cons]
    rfl
  · exact h.cache.trans hcache
  · exact h.reported.trans hreported

theorem isFinal_of_ok {c : Completion α} {r : StoredReport α} (h : failureOf plan j.parameters c = .ok r) :
    isFinal plan j c = true := by
  unfold isFinal
  rw [h]

theorem isFinal_of_error {c : Completion α} {e : JobFault α} (h : failureOf plan j.parameters c = .error e) :
    isFinal plan j c = !isRetryable e := by
  unfold isFinal
  rw [h]

variable (plan j) in
/-- Attempts are over with a final answer, with the last repetition, or for want of a delay. Otherwise they go on
after a pause. -/
theorem sequel_cases (made left : Nat) (c : Completion α) :
    (∃ x, sequel plan made left (failureOf plan j.parameters c) = .inl x ∧
      (isFinal plan j c = true ∨ left = 0 → x.mapError RetryFailure.cause = failureOf plan j.parameters c) ∧
      (isFinal plan j c = false → 0 < left → plan.retry.canDouble made = false ∧
        x.mapError RetryFailure.cause = .error (.fault (.value .tooLarge)))) ∨
    ∃ n, left = n + 1 ∧ sequel plan made left (failureOf plan j.parameters c) = .inr (plan.retry.pause made, n) ∧
      isFinal plan j c = false ∧ plan.retry.canDouble made = true := by
  unfold sequel
  cases hanswer : failureOf plan j.parameters c with
  | ok r => exact .inl ⟨.ok r, rfl, fun _ => rfl, fun hopen => by rw [isFinal_of_ok hanswer] at hopen; cases hopen⟩
  | error e =>
    rw [isFinal_of_error hanswer]
    dsimp only
    by_cases hretry : (!isRetryable e) = true
    · rw [if_pos hretry]
      exact .inl ⟨_, rfl, fun _ => rfl, fun hopen => by rw [hretry] at hopen; cases hopen⟩
    rw [if_neg hretry]
    cases left with
    | zero => exact .inl ⟨_, rfl, fun _ => rfl, fun _ hleft => absurd hleft (Nat.lt_irrefl 0)⟩
    | succ n =>
      rw [RetryPolicy.delay_eq]
      cases hdelay : plan.retry.canDouble made with
      | false =>
        exact .inl ⟨_, rfl, fun hend => absurd (hend.resolve_right (Nat.succ_ne_zero n)) hretry, fun _ _ => ⟨rfl, rfl⟩⟩
      | true => exact .inr ⟨n, rfl, rfl, Bool.eq_false_iff.2 hretry, rfl⟩

variable (plan j script) in
/-- How attempts go on that follow others: by induction on the repetitions that are left. -/
theorem attempts_course (left made : Nat) (s : Scheduler α) : ∃ n x s',
    attempts plan (scripted script) j made left (s, made) = (x, (s', made + (n + 1))) ∧
      Course plan j script made left s n (x.mapError RetryFailure.cause) s' := by
  induction left using Nat.strong_induction_on generalizing made s with
  | _ left ih =>
    have hpool : scripted script (requestOf s!"task-{s.submitted + 1}" j) made = (script made, made + 1) := rfl
    have hrun := attempts_sequel plan j made left s hpool
    obtain ⟨x, hsequel, hlast, hstuck⟩ | ⟨k, rfl, hsequel, hagain, hdelay⟩ := sequel_cases plan j made left (script made)
    · rw [hsequel] at hrun
      exact ⟨0, x, _, hrun, .one hlast hstuck⟩
    · rw [hsequel] at hrun
      obtain ⟨n, x, s', hrest, hcourse⟩ := ih k (Nat.lt_succ_self k) (made + 1)
        ((answered s (script made)).wait (plan.retry.pause made))
      refine ⟨n + 1, x, s', ?_, hcourse.more hagain hdelay⟩
      rw [show made + (n + 1 + 1) = made + 1 + (n + 1) by omega]
      exact hrun.trans hrest

/-- The delays of attempts from the first one on. -/
theorem Course.delays_pauses {left n : Nat} {s s' : Scheduler α} {answer : Except (JobFault α) (StoredReport α)}
    (h : Course plan j script 0 left s n answer s') : s'.delays = s.delays ++ plan.retry.pauses n := by
  rw [h.delays, ← List.range_eq_range']
  rfl

/-- Attempts end at the first call that nothing follows: a final one, the last one that is allowed, or one
with a delay that cannot be computed. -/
theorem Course.count_eq {left n m : Nat} {s s' : Scheduler α} {answer : Except (JobFault α) (StoredReport α)}
    (h : Course plan j script 0 left s n answer s') (hallowed : m ≤ left)
    (hopen : ∀ i < m, isFinal plan j (script i) = false ∧ plan.retry.canDouble i = true)
    (hend : isFinal plan j (script m) = true ∨ m = left ∨ plan.retry.canDouble m = false) : n = m := by
  rcases lt_trichotomy n m with hlt | heq | hgt
  · obtain ⟨hagain, hdelay⟩ := hopen n hlt
    have hstuck := (h.stuck (by rw [Nat.zero_add]; exact hagain) (hlt.trans_le hallowed)).1
    rw [Nat.zero_add, hdelay] at hstuck
    cases hstuck
  · exact heq
  · obtain ⟨hagain, hdelay⟩ := h.before m hgt
    rw [Nat.zero_add] at hagain hdelay
    rcases hend with hfinal | rfl | hnone
    · rw [hagain] at hfinal
      cases hfinal
    · exact absurd hgt h.allowed.not_gt
    · rw [hdelay] at hnone
      cases hnone

/-! ## Requests -/

/-- The scheduler after a request is answered: a result is kept, a failure reported. -/
def concluding (key : String) (s : Scheduler α) : Except (JobFault α) (StoredReport α) → Scheduler α
  | .ok r => s.keep key r
  | .error (.failure f) => s.report f
  | .error (.fault _) => s

theorem runJob_attempts {π : Type} {pool : Pool π α} {key : String} (hkey : fingerprint j = .ok key) {s s' : Scheduler α}
    (hmiss : s.cache.lookup key = none) {p p' : π} {x : Except (RetryFailure (JobFault α)) (StoredReport α)}
    (h : attempts plan pool j 0 plan.retry.retries.toNat ({ s with misses := s.misses + 1 }, p) = (x, (s', p'))) :
    runJob plan pool j (s, p) =
      (x.mapError RetryFailure.cause, (concluding key s' (x.mapError RetryFailure.cause), p')) := by
  rw [runJob_miss pool hkey hmiss]
  unfold evaluateAndKeep
  rw [bind_run, evaluate_eq j h]
  cases x with
  | ok r => rfl
  | error stopped =>
    have hcause : (Except.error stopped : Except _ (StoredReport α)).mapError RetryFailure.cause = .error stopped.cause := rfl
    rw [hcause]
    unfold evaluated
    dsimp only
    cases stopped.cause <;> rfl

/-- The failures that an answer has reported. -/
def reports : Except (JobFault α) (StoredReport α) → List (Failure α)
  | .error (.failure f) => [f]
  | _ => []

/-- The law of requests that are tried again. There is one call more than repetitions, with the delays
between them; the last call gives the answer. A result is kept, a failure reported, and nothing else. -/
structure Retried (plan : SchedulerPlan α) (j : Job α) (script : Nat → Completion α) (key : String) (s : Scheduler α)
    (out : Except (JobFault α) (StoredReport α) × (Scheduler α × Nat)) : Prop where
  calls : out.2.2 = repetitions plan j script + 1
  submitted : out.2.1.submitted = s.submitted + (repetitions plan j script + 1)
  delays : out.2.1.delays = s.delays ++ plan.retry.pauses (repetitions plan j script)
  ascending : (plan.retry.pauses (repetitions plan j script)).Pairwise fun d d' => d.isAtMost d' = true
  bounded : ∀ d ∈ plan.retry.pauses (repetitions plan j script), d.isAtMost plan.retry.maxDelay = true
  answer : out.1 = failureOf plan j.parameters (script (repetitions plan j script))
  kept : out.2.1.cache = match out.1 with
    | .ok r => (s.keep key r).cache
    | .error _ => s.cache
  reported : out.2.1.reported = s.reported ++ reports out.1

/-- A request that is given up after `n` repetitions, because the next delay cannot be computed: its answer
is that fault, and nothing is kept or reported. -/
structure GivenUp (plan : SchedulerPlan α) (s : Scheduler α) (n : Nat)
    (out : Except (JobFault α) (StoredReport α) × (Scheduler α × Nat)) : Prop where
  calls : out.2.2 = n + 1
  delays : out.2.1.delays = s.delays ++ plan.retry.pauses n
  answer : out.1 = .error (.fault (.value .tooLarge))
  kept : out.2.1.cache = s.cache
  reported : out.2.1.reported = s.reported

omit [Scalar α] in
/-- What an answer leaves behind. -/
theorem concluding_frame (key : String) {s s' : Scheduler α} (hcache : s'.cache = s.cache)
    (hreported : s'.reported = s.reported) (answer : Except (JobFault α) (StoredReport α)) :
    (concluding key s' answer).submitted = s'.submitted ∧ (concluding key s' answer).delays = s'.delays ∧
      (concluding key s' answer).reported = s.reported ++ reports answer ∧
      (concluding key s' answer).cache = match answer with
        | .ok r => (s.keep key r).cache
        | .error _ => s.cache := by
  cases answer with
  | ok r =>
    refine ⟨rfl, rfl, hreported.trans (List.append_nil _).symm, ?_⟩
    unfold concluding keep
    rw [hcache]
  | error e =>
    cases e with
    | failure f =>
      refine ⟨rfl, rfl, ?_, hcache⟩
      unfold concluding report reports
      rw [hreported]
    | fault f => exact ⟨rfl, rfl, hreported.trans (List.append_nil _).symm, hcache⟩

section

variable {key : String} (hkey : fingerprint j = .ok key) {s : Scheduler α} (hmiss : s.cache.lookup key = none)

include hkey hmiss

variable (plan script) in
/-- A request without a kept result goes the course of its attempts. -/
theorem runJob_course : ∃ n answer s', Course plan j script 0 plan.retry.retries.toNat { s with misses := s.misses + 1 }
    n answer s' ∧ runJob plan (scripted script) j (s, 0) = (answer, (concluding key s' answer, n + 1)) := by
  obtain ⟨n, x, s', hattempts, hcourse⟩ :=
    attempts_course plan j script plan.retry.retries.toNat 0 { s with misses := s.misses + 1 }
  rw [Nat.zero_add] at hattempts
  exact ⟨n, _, s', hcourse, runJob_attempts hkey hmiss hattempts⟩

/-- A request is given up before the first delay that cannot be computed. -/
theorem runJob_givenUp {i : Nat} (hi : i < repetitions plan j script) (hdelay : plan.retry.canDouble i = false)
    (hearlier : ∀ m < i, plan.retry.canDouble m = true) :
    GivenUp plan s i (runJob plan (scripted script) j (s, 0)) := by
  obtain ⟨n, answer, s', hcourse, hrun⟩ := runJob_course plan script hkey hmiss
  have hrepeated := repeated plan j script
  have hleft := hi.trans_le hrepeated.allowed
  obtain rfl : n = i := hcourse.count_eq hleft.le (fun m hm => ⟨hrepeated.before m (hm.trans hi), hearlier m hm⟩)
    (.inr (.inr hdelay))
  obtain ⟨-, rfl⟩ := hcourse.stuck (by rw [Nat.zero_add]; exact hrepeated.before n hi) hleft
  rw [hrun]
  exact ⟨rfl, hcourse.delays_pauses, rfl, hcourse.cache, hcourse.reported⟩

/-- A request all of whose delays can be computed is tried again as the law says. -/
theorem runJob_lawful (hα : Num.Doubling α) (hinitial : plan.retry.initialDelay.NonNegative)
    (hlongest : plan.retry.maxDelay.NonNegative)
    (hdelays : ∀ i < repetitions plan j script, plan.retry.canDouble i = true) :
    Retried plan j script key s (runJob plan (scripted script) j (s, 0)) := by
  obtain ⟨n, answer, s', hcourse, hrun⟩ := runJob_course plan script hkey hmiss
  have hrepeated := repeated plan j script
  obtain rfl : n = repetitions plan j script := hcourse.count_eq hrepeated.allowed
    (fun m hm => ⟨hrepeated.before m hm, hdelays m hm⟩) (hrepeated.last.imp_right .inl)
  have hanswer := hcourse.last (by rw [Nat.zero_add]; exact hrepeated.last)
  rw [Nat.zero_add] at hanswer
  obtain ⟨hsubmitted, hwaited, hreported, hcache⟩ := concluding_frame key hcourse.cache hcourse.reported answer
  rw [hrun]
  exact {
    calls := rfl
    submitted := hsubmitted.trans hcourse.submitted
    delays := hwaited.trans hcourse.delays_pauses
    ascending := RetryPolicy.pauses_ascending hα hinitial hlongest hdelays
    bounded := RetryPolicy.pauses_bounded hα hinitial hlongest hdelays
    answer := hanswer
    kept := hcache
    reported := hreported }

/-- Requests are tried again as the law says, exactly when every delay before a repetition can be
computed; otherwise a request is given up before the first delay that cannot. -/
theorem runJob_retried (hα : Num.Doubling α) (hinitial : plan.retry.initialDelay.NonNegative)
    (hlongest : plan.retry.maxDelay.NonNegative) (script : Nat → Completion α) :
    Repeated plan j script (repetitions plan j script) ∧
      (Retried plan j script key s (runJob plan (scripted script) j (s, 0)) ↔
        ∀ i < repetitions plan j script, plan.retry.canDouble i = true) ∧
      ∀ i < repetitions plan j script, plan.retry.canDouble i = false → (∀ m < i, plan.retry.canDouble m = true) →
        GivenUp plan s i (runJob plan (scripted script) j (s, 0)) := by
  refine ⟨repeated plan j script, ⟨fun hlaw => ?_, runJob_lawful hkey hmiss hα hinitial hlongest⟩,
    fun i hi => runJob_givenUp hkey hmiss hi⟩
  by_contra hsome
  have hsome' : ∃ i, i < repetitions plan j script ∧ plan.retry.canDouble i = false := by
    push Not at hsome
    obtain ⟨i, hi, hdelay⟩ := hsome
    exact ⟨i, hi, Bool.eq_false_iff.2 hdelay⟩
  -- at the first such delay the request is given up, with too few calls
  classical
  obtain ⟨hfirst, hdelay⟩ := Nat.find_spec hsome'
  have hearlier : ∀ m < Nat.find hsome', plan.retry.canDouble m = true := fun m hm => by
    have hnot := Nat.find_min hsome' hm
    cases hm' : plan.retry.canDouble m with
    | true => rfl
    | false => exact absurd ⟨hm.trans hfirst, hm'⟩ hnot
  have hcalls := (runJob_givenUp hkey hmiss hfirst hdelay hearlier).calls
  rw [hlaw.calls] at hcalls
  omega

end

/-! ## A result at the fourth call, and a delay that no double holds -/

/-- A day on a thousand, with limits only. -/
def watchedDay : Job α :=
  { blocks := [{ id := "l", kind := "risk_limits", category := .risk, label := "", params := [] }]
    parameters := .object []
    config :=
      { start := .known 0, stop := .known 86400000000000, capital := .whole 1000, interval := .whole 3600000,
        baseCurrency := "USDC", holdings := [], granularity := .null } }

theorem watchedDay_fingerprint : ∃ key, fingerprint (watchedDay : Job α) = .ok key := by
  have hempty : (Value.object [] : Value α).Plain := .object nofun List.nodup_nil nofun
  refine ⟨_, fingerprint_writable ⟨fun b hb => ?_, hempty, hempty, .null⟩⟩
  rw [List.mem_singleton.1 hb]
  exact hempty

/-- A worker that cannot reach its data. -/
def networkDown : Completion α := .reported (some "network down") none .null

theorem networkDown_repeats (plan : SchedulerPlan α) (j : Job α) : isFinal plan j networkDown = false := by
  have hkind : FailureClass.of "network down" none = .network := by decide +kernel
  have hfailure : failureOf plan j.parameters networkDown =
      .error (.failure (.classify "network down" none j.parameters)) := rfl
  rw [isFinal_of_error hfailure]
  unfold isRetryable Failure.isRetryable Failure.classify
  dsimp only
  rw [hkind]
  rfl

section

local instance openPartsOfRetries : ExactArithmetic := default

/-- A result without any steps. -/
def noSteps : Report ℚ := { metrics := default, curve := [], trades := [], skipped := 0 }

/-- Three failures, then a result. -/
def recovering (n : Nat) : Completion ℚ := if n < 3 then networkDown else .answered (.result .null .null noSteps)

/-- A request that is answered by the fourth call, after delays of one, two and three seconds. -/
theorem network_recovers :
    let plan : SchedulerPlan ℚ := { timeout := .real 60, retry := ⟨5, .real 1, .whole 3⟩ }
    let out := runJob plan (scripted recovering) watchedDay (empty, 0)
    ∃ key, fingerprint (watchedDay : Job ℚ) = .ok key ∧ out.2.2 = 4 ∧ out.2.1.delays.map Num.value = [1, 2, 3] ∧
      out.1 = .ok noSteps.stored ∧ out.2.1.cache.lookup key = some noSteps.stored ∧ out.2.1.reported = [] := by
  intro plan out
  obtain ⟨key, hkey⟩ := watchedDay_fingerprint (α := ℚ)
  have hresult : failureOf plan (watchedDay : Job ℚ).parameters (recovering 3) = .ok noSteps.stored := by
    have hread : StoredReport.ofValue noSteps.toValue = .ok noSteps.stored :=
      StoredReport.ofValue_toValue (fun p hp => absurd hp List.not_mem_nil) fun x hx => absurd hx List.not_mem_nil
    show (match StoredReport.ofValue noSteps.toValue with
      | .ok stored => (Except.ok stored : Except (JobFault ℚ) (StoredReport ℚ))
      | .error f => .error (.fault f)) = _
    rw [hread]
  have hthree : repetitions plan watchedDay recovering = 3 := by
    refine (repeated plan watchedDay recovering).eq ⟨by decide, fun i hi => ?_, .inl (isFinal_of_ok hresult)⟩
    rw [recovering, if_pos hi]
    exact networkDown_repeats plan watchedDay
  have hinitial : plan.retry.initialDelay.NonNegative := Num.nonNegative_exact.2 (show (0 : ℚ) ≤ 1 by norm_num)
  have hlongest : plan.retry.maxDelay.NonNegative :=
    Num.nonNegative_exact.2 (show (0 : ℚ) ≤ ((3 : Int) : ℚ) by norm_num)
  obtain ⟨-, hlaw, -⟩ := runJob_retried hkey (s := empty) rfl Num.doubling_exact hinitial hlongest recovering
  have hretried := hlaw.2 fun i _ => rfl
  have hanswer := hretried.answer
  have hdelays := hretried.delays
  have hkept := hretried.kept
  have hreported := hretried.reported
  rw [hthree, hresult] at hanswer
  rw [hanswer] at hkept hreported
  rw [hthree] at hdelays
  refine ⟨key, hkey, hretried.calls.trans (congrArg (· + 1) hthree), ?_, hanswer, ?_, hreported⟩
  · rw [show out.2.1.delays = _ from hdelays]
    norm_num [RetryPolicy.pauses, RetryPolicy.pause_exact, List.range_succ, empty, plan]
  · rw [show out.2.1.cache = _ from hkept]
    exact (lookup_keep empty key _ key).trans (if_pos rfl)

end

/-- With an initial delay of one second in binary floating point, a request that may be repeated 1025 times
is given up after the call before the last: the network is down, but what is raised is the overflow of a
delay, and no failure is reported. -/
theorem delay_overflows :
    let plan : SchedulerPlan Float := { timeout := .real 60.0, retry := ⟨1025, .real 1.0, .real 10.0⟩ }
    let out := runJob plan (scripted fun _ => networkDown) watchedDay (empty, 0)
    ∃ key, fingerprint (watchedDay : Job Float) = .ok key ∧ repetitions plan watchedDay (fun _ => networkDown) = 1025 ∧
      GivenUp plan empty 1024 out ∧ ¬ Retried plan watchedDay (fun _ => networkDown) key empty out := by
  intro plan out
  obtain ⟨key, hkey⟩ := watchedDay_fingerprint (α := Float)
  have hmany : repetitions plan watchedDay (fun _ => networkDown) = 1025 :=
    (repeated plan watchedDay _).eq ⟨le_rfl, fun _ _ => networkDown_repeats plan watchedDay, .inr rfl⟩
  have hgivenUp : GivenUp plan empty 1024 out := by
    refine runJob_givenUp hkey rfl (by rw [hmany]; norm_num) ?_ fun m hm => (RetryPolicy.canDouble_double rfl m).2 hm
    exact Bool.eq_false_iff.2 fun h => absurd ((RetryPolicy.canDouble_double rfl 1024).1 h) (by norm_num)
  refine ⟨key, hkey, hmany, hgivenUp, fun hlaw => ?_⟩
  have hcalls := hlaw.calls.symm.trans hgivenUp.calls
  rw [hmany] at hcalls
  norm_num at hcalls

end StrategyLab.Scheduler
