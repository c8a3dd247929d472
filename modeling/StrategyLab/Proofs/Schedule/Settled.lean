/-
Outcomes that do not depend on what was asked for before. Whatever a scheduler served (`Served`), and
in whatever order the jobs of a batch make their steps, each job gets the outcome of its own attempts,
or the failure that stands for its fingerprint if it has none (`Run.outcomes`).
-/
import StrategyLab.Proofs.Schedule.Interleaving
import StrategyLab.Proofs.Schedule.Sequential

namespace StrategyLab.Batch

open Scheduler

variable {α : Type} [Scalar α] {plan : SchedulerPlan α} {work : Object α → Completion α} {limit : Nat}

/-! ## Jobs -/

/-- The outcome of a job, whatever was asked for before. -/
def settledOutcome (plan : SchedulerPlan α) (work : Object α → Completion α) (j : Job α) :
    Except (Failure α) (StoredReport α) :=
  match fingerprint j with
  | .ok _ => outcomeOf plan work j
  | .error f => .error (failureOfFault f j.parameters)

/-- A job on the way to that outcome. -/
inductive Heading (plan : SchedulerPlan α) (work : Object α → Completion α) (m : Member α) : Prop
  | keyed {key : String} (hkey : fingerprint m.job = .ok key) (hkeyed : ∀ k, m.stage.key? = some k → k = key)
      (hpromised : promise plan work m.job m.stage = outcomeOf plan work m.job)
  | unkeyed {f : Fault α} (hfault : fingerprint m.job = .error f)
      (hstage : m.stage = .queued ∨ m.stage = .reporting (failureOfFault f m.job.parameters) ∨
        m.stage = .done (.error (failureOfFault f m.job.parameters)))

theorem Heading.queued (j : Job α) : Heading plan work ⟨j, .queued⟩ := by
  cases hkey : fingerprint j with
  | ok key => exact .keyed hkey nofun rfl
  | error f => exact .unkeyed hkey (.inl rfl)

theorem Heading.outcome {m : Member α} (h : Heading plan work m) (hdone : m.stage.isDone = true) :
    m.stage.outcome? = some (settledOutcome plan work m.job) := by
  obtain ⟨j, stage⟩ := m
  cases stage with
  | done o =>
    unfold settledOutcome
    cases h with
    | keyed hkey _ hpromised =>
      rw [hkey]
      exact congrArg some hpromised
    | unkeyed hfault hstage =>
      rw [hfault]
      rcases hstage with hstage | hstage | hstage
      · cases hstage
      · cases hstage
      · exact congrArg some (JobStage.done.inj hstage)
  | _ => cases hdone

/-- A step leads a job on, and what it keeps is sound. -/
theorem Heading.act (hwork : Steady plan work) {m : Member α} (hm : Heading plan work m) {s s' : Scheduler α}
    (hsound : Sound plan work s) {stage : JobStage α} (h : m.act plan work s = some (stage, s')) :
    Heading plan work { m with stage } ∧ Sound plan work s' := by
  cases hm with
  | keyed hkey hkeyed hpromised =>
    have hacted := act_spec hwork hkey hkeyed hsound h
    have hnext : promise plan work m.job stage = outcomeOf plan work m.job := hacted.promised.trans hpromised
    exact ⟨.keyed hkey hacted.keyed hnext, Acted.sound hkey hacted hnext hsound⟩
  | unkeyed hfault hstage =>
    obtain ⟨j, before⟩ := m
    dsimp only at hfault hstage
    rcases hstage with rfl | rfl | rfl
    · unfold Member.act at h
      dsimp only at h
      rw [hfault] at h
      cases h
      exact ⟨.unkeyed hfault (.inr (.inl rfl)), hsound⟩
    · cases h
      exact ⟨.unkeyed hfault (.inr (.inr rfl)), hsound⟩
    · cases h

/-! ## Batches -/

/-- All jobs of a batch are on their way, and what is kept is sound. -/
structure Settling (plan : SchedulerPlan α) (work : Object α → Completion α) (jobs : List (Job α)) (b : Batch α) : Prop where
  jobs : b.members.map (·.job) = jobs
  heading : ∀ m ∈ b.members, Heading plan work m
  sound : Sound plan work b.scheduler

theorem Settling.start {s : Scheduler α} (hsound : Sound plan work s) (jobs : List (Job α)) :
    Settling plan work jobs (start s jobs) := by
  refine ⟨by simp [Batch.start, Function.comp_def], ?_, hsound⟩
  intro m hm
  obtain ⟨j, -, rfl⟩ := List.mem_map.1 hm
  exact .queued j

theorem Settling.step (hwork : Steady plan work) {jobs : List (Job α)} {b b' : Batch α} (hb : Settling plan work jobs b)
    (h : Step plan work limit b b') : Settling plan work jobs b' := by
  cases h with
  | @act before after m s s' stage _ hact =>
    obtain ⟨hjobs, hheading, hsound⟩ := hb
    obtain ⟨hm, hsound'⟩ := (hheading m (by simp)).act hwork hsound hact
    refine ⟨by simpa using hjobs, ?_, hsound'⟩
    intro x hx
    rcases List.mem_append.1 hx with hx | hx
    · exact hheading x (List.mem_append_left _ hx)
    · rcases List.mem_cons.1 hx with rfl | hx
      · exact hm
      · exact hheading x (List.mem_append_right _ (List.mem_cons_of_mem _ hx))

theorem Settling.run (hwork : Steady plan work) {jobs : List (Job α)} {n : Nat} {a b : Batch α}
    (ha : Settling plan work jobs a) (h : Run plan work limit n a b) : Settling plan work jobs b := by
  induction h with
  | none => exact ha
  | more _ hstep ih => exact (ih ha).step hwork hstep

/-- In every order of the steps a batch comes to the same outcomes. -/
theorem Run.outcomes (hwork : Steady plan work) {s : Scheduler α} (hsound : Sound plan work s) {jobs : List (Job α)}
    {n : Nat} {b : Batch α} (h : Run plan work limit n (start s jobs) b) (hover : b.isOver = true) :
    b.outcomes = jobs.map (fun j => some (settledOutcome plan work j)) ∧ Sound plan work b.scheduler := by
  obtain ⟨hjobs, hheading, hsound'⟩ := (Settling.start hsound jobs).run hwork h
  refine ⟨?_, hsound'⟩
  unfold Batch.outcomes
  rw [← hjobs, List.map_map]
  exact List.map_congr_left fun m hm => (hheading m hm).outcome (List.all_eq_true.1 hover m hm)

/-! ## What a scheduler served -/

/-- A scheduler that served requests and batches before. A batch may still be under way: what it has
kept so far is there to be found. -/
inductive Served (plan : SchedulerPlan α) (work : Object α → Completion α) : Scheduler α → Prop
  | nothing : Served plan work Scheduler.empty
  | request {s : Scheduler α} (j : Job α) (h : Served plan work s) :
      Served plan work (runJob plan (answering Unit work) j (s, ())).2.1
  | batch {s : Scheduler α} (jobs : List (Job α)) {limit n : Nat} {b : Batch α} (h : Served plan work s)
      (hrun : Run plan work limit n (start s jobs) b) : Served plan work b.scheduler

variable (plan) in
/-- A member of a batch keeps what its job keeps. -/
theorem cache_runMember {π : Type} (pool : Pool π α) (j : Job α) (s : Scheduler α) (p : π) :
    (runMember plan pool j (s, p)).2.1.cache = (runJob plan pool j (s, p)).2.1.cache := by
  unfold runMember
  rw [bind_run]
  rcases runJob plan pool j (s, p) with ⟨r, s', p'⟩
  cases r with
  | ok r => rfl
  | error e => cases e <;> rfl

/-- What was kept for earlier requests is sound. -/
theorem Served.sound (hwork : Steady plan work) {s : Scheduler α} (h : Served plan work s) : Sound plan work s := by
  induction h with
  | nothing =>
    intro key r hlookup
    rw [show (Scheduler.empty : Scheduler α).cache = [] from rfl, List.lookup_nil] at hlookup
    cases hlookup
  | @request s j _ ih =>
    have hnone : ∀ m ∈ ([] : List (Member α)), m.stage.isDone = true := fun _ h => absurd h List.not_mem_nil
    have hnone' : ∀ m ∈ ([] : List (Member α)), m.stage.isQueued = true := fun _ h => absurd h List.not_mem_nil
    obtain ⟨o, s', hmember, n, hrun⟩ := runMember_reaches plan work Nat.one_pos hnone hnone' j s ()
    have hsound := ((Settling.start ih [j]).run hwork hrun).sound
    have hcache := cache_runMember plan (answering Unit work) j s ()
    rw [hmember] at hcache
    unfold Sound at hsound ⊢
    rw [← hcache]
    exact hsound
  | batch jobs _ hrun ih => exact ((Settling.start ih jobs).run hwork hrun).sound

/-! ## Kept results -/

variable {κ : Type}

variable (plan work) in
/-- A batch whose jobs are all answered with one result leaves it kept for each of them. -/
theorem runBatch_keeps (r : StoredReport α) (k : κ) : ∀ (jobs : List (Job α)) (s : Scheduler α),
    (∀ j ∈ jobs, (∃ key, fingerprint j = .ok key) ∧ ∀ id, failureOf plan j.parameters (work (requestOf id j)) = .ok r) →
    (∀ key r', s.cache.lookup key = some r' → r' = r) →
    ∃ os s', runBatch plan (answering κ work) jobs (s, k) = (os, (s', k)) ∧
      (∀ key, s.cache.lookup key = some r → s'.cache.lookup key = some r) ∧
      ∀ j ∈ jobs, ∃ key, fingerprint j = .ok key ∧ s'.cache.lookup key = some r
  | [], s, _, _ => ⟨[], s, rfl, fun _ h => h, nofun⟩
  | j :: rest, s, hjobs, hs => by
    obtain ⟨⟨⟨key, hkey⟩, hanswer⟩, hrest⟩ := List.forall_mem_cons.1 hjobs
    -- found or evaluated, the first job leaves its result kept and nothing else in the cache
    obtain ⟨s₁, hmember, hsame, hkept, honly⟩ : ∃ s₁, runMember plan (answering κ work) j (s, k) = (.ok r, (s₁, k)) ∧
        (∀ key, s.cache.lookup key = some r → s₁.cache.lookup key = some r) ∧ s₁.cache.lookup key = some r ∧
        ∀ key r', s₁.cache.lookup key = some r' → r' = r := by
      cases hlookup : s.cache.lookup key with
      | some r' =>
        obtain rfl := hs key r' hlookup
        exact ⟨_, runMember_hit _ hkey hlookup k, fun _ h => h, hlookup, hs⟩
      | none =>
        have hcache : ∀ c : Completion α, (answered { s with misses := s.misses + 1 } c).cache = s.cache := by
          intro c
          unfold answered
          split <;> rfl
        refine ⟨_, runMember_answered hkey hlookup k rfl (hanswer _), fun key' h => ?_, ?_, fun key' r' h => ?_⟩
        · rw [lookup_keep, hcache]
          split
          · rfl
          · exact h
        · rw [lookup_keep, if_pos rfl]
        · rw [lookup_keep, hcache] at h
          split at h
          · exact (Option.some.inj h).symm
          · exact hs key' r' h
    obtain ⟨os, s', hbatch, hsame', hkept'⟩ := runBatch_keeps r k rest s₁ hrest honly
    refine ⟨.ok r :: os, s', ?_, fun key' h => hsame' key' (hsame key' h), ?_⟩
    · rw [runBatch_cons _ hmember, hbatch]
    · exact List.forall_mem_cons.2 ⟨⟨key, hkey, hsame' key hkept⟩, hkept'⟩

variable (plan) in
/-- A batch whose jobs all have one result kept comes to it. -/
theorem runBatch_hits {π : Type} (pool : Pool π α) (r : StoredReport α) (p : π) : ∀ (jobs : List (Job α)) (s : Scheduler α),
    (∀ j ∈ jobs, ∃ key, fingerprint j = .ok key ∧ s.cache.lookup key = some r) →
    ∃ s', runBatch plan pool jobs (s, p) = (jobs.map fun _ => .ok r, (s', p))
  | [], s, _ => ⟨s, rfl⟩
  | j :: rest, s, hjobs => by
    obtain ⟨⟨key, hkey, hlookup⟩, hrest⟩ := List.forall_mem_cons.1 hjobs
    obtain ⟨s', hbatch⟩ := runBatch_hits pool r p rest { s with hits := s.hits + 1 } hrest
    refine ⟨s', ?_⟩
    rw [runBatch_cons _ (runMember_hit pool hkey hlookup p), hbatch]
    rfl

end StrategyLab.Batch
