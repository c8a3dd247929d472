/-
Batches in any order of steps. Whatever the order, a batch ends (`Run.le_remaining`, `Inv.proceeds`), and
what it ends with is settled by the jobs and by the results kept before (`Inv.ends`): the outcomes,
the counted look-ups, the kept results, the reported failures up to their order, and that no worker
is busy with it any more.
-/
import StrategyLab.Proofs.Schedule.Act

namespace StrategyLab.Batch

open Scheduler (Steady Sound promise answerTo outcomeOf)

variable {α : Type} [Scalar α] {plan : SchedulerPlan α} {work : Object α → Completion α} {limit : Nat}

/-! ## The invariant of a run -/

/-- What holds of a batch of jobs while it is evaluated, begun by a scheduler. -/
structure Inv (plan : SchedulerPlan α) (work : Object α → Completion α) (s₀ : Scheduler α) (jobs : List (Job α))
    (b : Batch α) : Prop where
  jobs : b.members.map (·.job) = jobs
  keyed : ∀ m ∈ b.members, ∃ key, Scheduler.fingerprint m.job = .ok key ∧ ∀ k, m.stage.key? = some k → k = key
  promised : ∀ m ∈ b.members, promise plan work m.job m.stage = outcomeOf plan work m.job
  sound : Sound plan work b.scheduler
  looked : b.scheduler.hits + b.scheduler.misses = s₀.hits + s₀.misses + (b.members.map (·.stage.looked)).sum
  active : b.scheduler.active = s₀.active + (b.members.map (·.stage.busy)).sum
  cache : ∀ key, (b.scheduler.cache.lookup key).isSome = true ↔ (s₀.cache.lookup key).isSome = true ∨
    ∃ m ∈ b.members, Scheduler.fingerprint m.job = .ok key ∧ m.stage.result?.isSome = true
  reported : ∃ new, b.scheduler.reported = s₀.reported ++ new ∧ new.Perm (b.members.flatMap (·.stage.failures))

theorem start_inv {s₀ : Scheduler α} (hsound : Sound plan work s₀) {jobs : List (Job α)}
    (hkeys : ∀ j ∈ jobs, ∃ key, Scheduler.fingerprint j = .ok key) : Inv plan work s₀ jobs (start s₀ jobs) := by
  have hqueued : ∀ m ∈ (start s₀ jobs).members, ∃ j ∈ jobs, m = ⟨j, .queued⟩ := fun m hm => by
    obtain ⟨j, hj, rfl⟩ := List.mem_map.1 hm
    exact ⟨j, hj, rfl⟩
  refine ⟨?_, fun m hm => ?_, fun m hm => ?_, hsound, ?_, ?_, fun key => ?_, [], ?_, ?_⟩
  · simp [start, Function.comp_def]
  · obtain ⟨j, hj, rfl⟩ := hqueued m hm
    obtain ⟨key, hkey⟩ := hkeys j hj
    exact ⟨key, hkey, nofun⟩
  · obtain ⟨j, -, rfl⟩ := hqueued m hm
    rfl
  · simp [start, Function.comp_def, JobStage.looked]
  · simp [start, Function.comp_def, JobStage.busy]
  · refine ⟨.inl, ?_⟩
    rintro (h | ⟨m, hm, -, hresult⟩)
    · exact h
    · obtain ⟨j, -, rfl⟩ := hqueued m hm
      cases hresult
  · simp [start]
  · simp [start, JobStage.failures]

/-- A step keeps results sound: what it adds is the answer to its job. -/
theorem Acted.sound {m : Member α} {key : String} (hkey : Scheduler.fingerprint m.job = .ok key) {s s' : Scheduler α}
    {stage : JobStage α} (h : Scheduler.Acted plan work m key s stage s')
    (hpromised : promise plan work m.job stage = outcomeOf plan work m.job) (hsound : Sound plan work s) :
    Sound plan work s' := by
  intro key' r hlookup
  rw [h.cache] at hlookup
  split at hlookup
  · rename_i heq
    cases hresult : stage.result? with
    | none =>
      rw [hresult] at hlookup
      exact hsound key' r hlookup
    | some x =>
      rw [hresult] at hlookup
      obtain rfl : x = r := Option.some.inj hlookup
      refine ⟨m.job, heq ▸ hkey, Scheduler.outcomeOf_ok_iff.1 ?_⟩
      rw [← hpromised]
      unfold JobStage.result? at hresult
      split at hresult
      · cases hresult; rfl
      · cases hresult
  · exact hsound key' r hlookup

/-- A step keeps a result under the key of its job, if that is what it comes to, and nothing else. -/
theorem Acted.isSome_lookup {m : Member α} {key : String} (hkey : Scheduler.fingerprint m.job = .ok key)
    {s₀ s s' : Scheduler α} {stage : JobStage α} (h : Scheduler.Acted plan work m key s stage s')
    {before after : List (Member α)} {key' : String} (hcached : (s.cache.lookup key').isSome = true ↔
      (s₀.cache.lookup key').isSome = true ∨
        ∃ x ∈ before ++ m :: after, Scheduler.fingerprint x.job = .ok key' ∧ x.stage.result?.isSome = true) :
    (s'.cache.lookup key').isSome = true ↔ (s₀.cache.lookup key').isSome = true ∨
      ∃ x ∈ before ++ { m with stage } :: after,
        Scheduler.fingerprint x.job = .ok key' ∧ x.stage.result?.isSome = true := by
  rw [h.cache]
  simp only [List.mem_append, List.mem_cons, or_and_right, exists_or, exists_eq_left, h.fresh] at hcached ⊢
  split
  · rename_i heq
    subst heq
    cases hresult : stage.result? with
    | none => simpa [hresult] using hcached
    | some r => simp [hkey]
  · rename_i hne
    have hnot : ¬ Scheduler.fingerprint m.job = .ok key' := fun h => hne (Except.ok.inj (h.symm.trans hkey))
    simpa [hnot] using hcached

theorem Inv.step (hwork : Steady plan work) {s₀ : Scheduler α} {jobs : List (Job α)} {b b' : Batch α}
    (hb : Inv plan work s₀ jobs b) (h : Step plan work limit b b') : Inv plan work s₀ jobs b' := by
  obtain ⟨hjobs, hkeyed, hpromised, hsound, hlooked, hactive, hcache, new, hreported, hperm⟩ := hb
  cases h with
  | @act before after m s s' stage _ hact =>
  dsimp only at hjobs hkeyed hpromised hsound hlooked hactive hcache hreported hperm
  obtain ⟨key, hkey, hk⟩ := hkeyed m (by simp)
  have hacted := Scheduler.act_spec hwork hkey hk hsound hact
  have hstage : promise plan work m.job stage = outcomeOf plan work m.job :=
    hacted.promised.trans (hpromised m (by simp))
  -- the other members are as they were
  have hother : ∀ {x : Member α}, x ∈ before ++ { m with stage } :: after →
      x = { m with stage } ∨ x ∈ before ++ m :: after := by
    intro x hx
    simp only [List.mem_append, List.mem_cons] at hx ⊢
    tauto
  refine ⟨?_, fun x hx => ?_, fun x hx => ?_, Acted.sound hkey hacted hstage hsound, ?_, ?_, fun key' => ?_, ?_⟩
  · simpa using hjobs
  · rcases hother hx with rfl | hx
    · exact ⟨key, hkey, hacted.keyed⟩
    · exact hkeyed x hx
  · rcases hother hx with rfl | hx
    · exact hstage
    · exact hpromised x hx
  · have := hacted.looked
    simp only [List.map_append, List.map_cons, List.sum_append, List.sum_cons] at hlooked ⊢
    omega
  · have := hacted.active
    simp only [List.map_append, List.map_cons, List.sum_append, List.sum_cons] at hactive ⊢
    omega
  · exact Acted.isSome_lookup hkey hacted (hcache key')
  · obtain ⟨more, hmore, hfailures⟩ := hacted.reported
    refine ⟨new ++ more, by rw [hmore, hreported, List.append_assoc], ?_⟩
    simp only [List.flatMap_append, List.flatMap_cons, hfailures] at hperm ⊢
    calc (new ++ more).Perm ((before.flatMap (·.stage.failures) ++
            (m.stage.failures ++ after.flatMap (·.stage.failures))) ++ more) := hperm.append_right more
      _ |>.Perm _ := by
        simp only [List.append_assoc]
        exact (List.perm_append_comm.append_left _).append_left _

theorem Inv.run (hwork : Steady plan work) {s₀ : Scheduler α} {jobs : List (Job α)} {n : Nat} {b b' : Batch α}
    (hb : Inv plan work s₀ jobs b) (h : Run plan work limit n b b') : Inv plan work s₀ jobs b' := by
  induction h with
  | none => exact hb
  | more _ hstep ih => exact (ih hb).step hwork hstep

/-! ## Every run ends -/

/-- How many steps may be left. -/
def remaining (plan : SchedulerPlan α) (b : Batch α) : Nat :=
  (b.members.map (·.stage.remaining plan.retry.retries.toNat)).sum

theorem Inv.remaining_lt (hwork : Steady plan work) {s₀ : Scheduler α} {jobs : List (Job α)} {b b' : Batch α}
    (hb : Inv plan work s₀ jobs b) (h : Step plan work limit b b') : b'.remaining plan < b.remaining plan := by
  cases h with
  | @act before after m s s' stage _ hact =>
  obtain ⟨key, hkey, hk⟩ := hb.keyed m (by simp)
  have := (Scheduler.act_spec hwork hkey hk hb.sound hact).remaining
  simp only [remaining, List.map_append, List.map_cons, List.sum_append, List.sum_cons]
  omega

theorem Run.le_remaining (hwork : Steady plan work) {s₀ : Scheduler α} {jobs : List (Job α)} {n : Nat}
    {b b' : Batch α} (hb : Inv plan work s₀ jobs b) (h : Run plan work limit n b b') :
    n + b'.remaining plan ≤ b.remaining plan := by
  induction h with
  | none => omega
  | more hrun hstep ih =>
    have hbefore := ih hb
    have hless := (hb.run hwork hrun).remaining_lt hwork hstep
    omega

theorem act_of_not_done (plan : SchedulerPlan α) (work : Object α → Completion α) {m : Member α}
    (h : m.stage.isDone = false) (s : Scheduler α) : ∃ stage s', m.act plan work s = some (stage, s') := by
  obtain ⟨j, stage⟩ := m
  cases stage with
  | queued =>
    unfold Member.act
    dsimp only
    split
    · exact ⟨_, _, rfl⟩
    · split <;> exact ⟨_, _, rfl⟩
  | done o => cases h
  | _ => exact ⟨_, _, rfl⟩

/-- A batch that is not over can make a step. -/
theorem proceeds (plan : SchedulerPlan α) (work : Object α → Completion α) (hlimit : 0 < limit) {b : Batch α}
    (h : b.isOver = false) : ∃ b', Step plan work limit b b' := by
  obtain ⟨s, members⟩ := b
  have hacts : ∀ {before after : List (Member α)} {m : Member α}, members = before ++ m :: after →
      m.stage.isDone = false → (m.stage.isQueued = true → (∀ x ∈ before, x.stage.isQueued = false) ∧
        (before ++ after).countP (·.stage.isUnderWay) < limit) → ∃ b', Step plan work limit ⟨s, members⟩ b' := by
    rintro before after m rfl hdone hturn
    obtain ⟨stage, s', hact⟩ := act_of_not_done plan work hdone s
    exact ⟨_, .act hturn hact⟩
  by_cases hway : ∃ m ∈ members, m.stage.isUnderWay = true
  · obtain ⟨m, hm, hway⟩ := hway
    obtain ⟨before, after, rfl⟩ := List.append_of_mem hm
    simp only [JobStage.isUnderWay, Bool.and_eq_true, Bool.not_eq_true'] at hway
    exact hacts rfl hway.2 fun hqueued => by rw [hway.1] at hqueued; cases hqueued
  · -- nothing is under way, so that the first job that is queued can begin
    have hqueued : ∃ m, members.find? (·.stage.isQueued) = some m := by
      obtain ⟨m, hm, hdone⟩ : ∃ m ∈ members, m.stage.isDone = false := by
        simpa [isOver] using h
      refine Option.isSome_iff_exists.1 (List.find?_isSome.2 ⟨m, hm, ?_⟩)
      by_contra hnot
      exact hway ⟨m, hm, by simp [JobStage.isUnderWay, hdone, hnot]⟩
    obtain ⟨m, hm⟩ := hqueued
    obtain ⟨hqueued, before, after, rfl, hfirst⟩ := List.find?_eq_some_iff_append.1 hm
    refine hacts rfl ?_ fun _ => ⟨fun x hx => by simpa using hfirst x hx, ?_⟩
    · cases hstage : m.stage <;> rw [hstage] at hqueued <;> simp [JobStage.isQueued, JobStage.isDone] at hqueued ⊢
    · rw [List.countP_eq_zero.2]
      · exact hlimit
      · intro x hx hunder
        refine hway ⟨x, ?_, hunder⟩
        rcases List.mem_append.1 hx with hx | hx
        · exact List.mem_append_left _ hx
        · exact List.mem_append_right _ (List.mem_cons_of_mem m hx)

end StrategyLab.Batch
