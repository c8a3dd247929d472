/-
What a batch comes to in any order of steps (`batch_ends`): every job gets the outcome that it gets
alone, for workers that give jobs with one fingerprint the same result. The fingerprint does not tell
a fixed sequence from a list, so that workers that tell them apart do not do (`tuple_answered_as_list`).
-/
import StrategyLab.Number.Double
import StrategyLab.Proofs.Schedule.Fingerprint
import StrategyLab.Proofs.Schedule.Interleaving
import StrategyLab.Proofs.Schedule.Sequential

namespace StrategyLab.Batch

open Scheduler

variable {α : Type} [Scalar α] {plan : SchedulerPlan α} {work : Object α → Completion α} {limit : Nat}

/-- The outcome of a job that a scheduler evaluates alone. -/
def alone (plan : SchedulerPlan α) (work : Object α → Completion α) (s : Scheduler α) (j : Job α) :
    Except (Failure α) (StoredReport α) :=
  (runMember plan (answering Unit work) j (s, ())).1

/-- The failure of a job without a result. -/
def failure? {β : Type} : Except (Failure α) β → Option (Failure α)
  | .error f => some f
  | .ok _ => none

/-- What a batch of jobs, begun by a scheduler, comes to. -/
structure Ends (plan : SchedulerPlan α) (work : Object α → Completion α) (s₀ : Scheduler α) (jobs : List (Job α))
    (b : Batch α) : Prop where
  outcomes : b.outcomes = jobs.map fun j => some (alone plan work s₀ j)
  looked : b.scheduler.hits + b.scheduler.misses = s₀.hits + s₀.misses + jobs.length
  cache : ∀ key r, b.scheduler.cache.lookup key = some r ↔ s₀.cache.lookup key = some r ∨
    ∃ j ∈ jobs, fingerprint j = .ok key ∧ alone plan work s₀ j = .ok r
  reported : ∃ new, b.scheduler.reported = s₀.reported ++ new ∧
    new.Perm (jobs.filterMap fun j => failure? (alone plan work s₀ j))
  active : b.scheduler.active = s₀.active

/-- A job that is evaluated alone gets the outcome of its own attempts, if kept results are sound. -/
theorem alone_eq (hwork : Steady plan work) {s₀ : Scheduler α} (hsound : Sound plan work s₀) {j : Job α}
    {key : String} (hkey : fingerprint j = .ok key) : alone plan work s₀ j = outcomeOf plan work j := by
  have hnone : ∀ m ∈ ([] : List (Member α)), m.stage.isDone = true := fun _ h => absurd h List.not_mem_nil
  have hnone' : ∀ m ∈ ([] : List (Member α)), m.stage.isQueued = true := fun _ h => absurd h List.not_mem_nil
  obtain ⟨o, s', hmember, n, hrun⟩ := runMember_reaches plan work one_pos hnone hnone' j s₀ ()
  have hstart : Inv plan work s₀ [j] (start s₀ [j]) :=
    start_inv hsound fun j' hj' => ⟨key, by rw [List.mem_singleton.1 hj']; exact hkey⟩
  have hpromised := (hstart.run hwork hrun).promised ⟨j, .done o⟩ (List.mem_singleton_self _)
  unfold alone
  rw [hmember]
  exact hpromised

theorem Inv.outcome (hwork : Steady plan work) {s₀ : Scheduler α} (hsound : Sound plan work s₀) {jobs : List (Job α)}
    {b : Batch α} (hb : Inv plan work s₀ jobs b) {m : Member α} (hm : m ∈ b.members) (hdone : m.stage.isDone = true) :
    m.stage = .done (alone plan work s₀ m.job) := by
  obtain ⟨key, hkey, -⟩ := hb.keyed m hm
  have hpromised := hb.promised m hm
  rw [← alone_eq hwork hsound hkey] at hpromised
  cases hstage : m.stage with
  | done o =>
    rw [hstage] at hpromised
    exact congrArg JobStage.done hpromised
  | _ => rw [hstage] at hdone; cases hdone

/-- A kept result is that of every job with its key. -/
theorem kept_eq (hwork : Steady plan work) {s : Scheduler α} (hsound : Sound plan work s) {key : String}
    {r x : StoredReport α} (hlookup : s.cache.lookup key = some r) {j : Job α} (hkey : fingerprint j = .ok key)
    (houtcome : outcomeOf plan work j = .ok x) : x = r := by
  obtain ⟨j', hkey', hanswer⟩ := hsound key r hlookup
  have hsame := hwork.keyed j' j key r hkey' hkey hanswer
  exact Except.ok.inj ((outcomeOf_ok_iff.1 houtcome).symm.trans hsame)

/-- When all jobs are done, what is kept was kept before, or is the result of a job. -/
theorem Inv.lookup_iff (hwork : Steady plan work) {s₀ : Scheduler α} (hsound : Sound plan work s₀) {jobs : List (Job α)}
    {b : Batch α} (hb : Inv plan work s₀ jobs b)
    (hdone : ∀ m ∈ b.members, m.stage = .done (alone plan work s₀ m.job)) (key : String) (r : StoredReport α) :
    b.scheduler.cache.lookup key = some r ↔ s₀.cache.lookup key = some r ∨
      ∃ j ∈ jobs, fingerprint j = .ok key ∧ alone plan work s₀ j = .ok r := by
  constructor
  · intro hlookup
    rcases (hb.cache key).1 (by rw [hlookup]; rfl) with hbefore | ⟨m, hm, hkey, hresult⟩
    · obtain ⟨r₀, hr₀⟩ := Option.isSome_iff_exists.1 hbefore
      obtain ⟨j, hkey, hanswer⟩ := hsound key r₀ hr₀
      rw [kept_eq hwork hb.sound hlookup hkey (outcomeOf_ok_iff.2 hanswer)] at hr₀
      exact .inl hr₀
    · rw [hdone m hm] at hresult
      cases houtcome : alone plan work s₀ m.job with
      | error f => rw [houtcome] at hresult; cases hresult
      | ok x =>
        rw [kept_eq hwork hb.sound hlookup hkey ((alone_eq hwork hsound hkey).symm.trans houtcome)] at houtcome
        exact .inr ⟨m.job, by rw [← hb.jobs]; exact List.mem_map_of_mem hm, hkey, houtcome⟩
  · intro h
    obtain ⟨j, hkey, houtcome, hkept⟩ : ∃ j, fingerprint j = .ok key ∧ outcomeOf plan work j = .ok r ∧
        (b.scheduler.cache.lookup key).isSome = true := by
      rcases h with hbefore | ⟨j, hj, hkey, houtcome⟩
      · obtain ⟨j, hkey, hanswer⟩ := hsound key r hbefore
        exact ⟨j, hkey, outcomeOf_ok_iff.2 hanswer, (hb.cache key).2 (.inl (by rw [hbefore]; rfl))⟩
      · rw [← hb.jobs] at hj
        obtain ⟨m, hm, rfl⟩ := List.mem_map.1 hj
        refine ⟨m.job, hkey, (alone_eq hwork hsound hkey).symm.trans houtcome, (hb.cache key).2 (.inr ⟨m, hm, hkey, ?_⟩)⟩
        rw [hdone m hm, houtcome]
        rfl
    obtain ⟨x, hx⟩ := Option.isSome_iff_exists.1 hkept
    rw [hx, kept_eq hwork hb.sound hx hkey houtcome]

/-- A batch that is over came to what its jobs come to alone. -/
theorem Inv.ends (hwork : Steady plan work) {s₀ : Scheduler α} (hsound : Sound plan work s₀) {jobs : List (Job α)}
    {b : Batch α} (hb : Inv plan work s₀ jobs b) (hover : b.isOver = true) : Ends plan work s₀ jobs b := by
  have hdone : ∀ m ∈ b.members, m.stage = .done (alone plan work s₀ m.job) := fun m hm =>
    hb.outcome hwork hsound hm (List.all_eq_true.1 hover m hm)
  have hlength : b.members.length = jobs.length := by rw [← hb.jobs, List.length_map]
  refine ⟨?_, ?_, hb.lookup_iff hwork hsound hdone, ?_, ?_⟩
  · unfold outcomes
    rw [← hb.jobs, List.map_map]
    exact List.map_congr_left fun m hm => by rw [hdone m hm]; rfl
  · rw [hb.looked, ← hlength, List.map_congr_left (g := fun _ => 1) fun m hm => by rw [hdone m hm]; rfl]
    simp
  · obtain ⟨new, hnew, hperm⟩ := hb.reported
    refine ⟨new, hnew, hperm.trans (List.Perm.of_eq ?_)⟩
    rw [← hb.jobs, List.filterMap_map, List.filterMap_eq_flatMap_toList]
    refine List.flatMap_congr fun m hm => ?_
    rw [hdone m hm]
    show _ = (failure? (alone plan work s₀ m.job)).toList
    cases alone plan work s₀ m.job <;> rfl
  · rw [hb.active, List.map_congr_left (g := fun _ => 0) fun m hm => by rw [hdone m hm]; rfl]
    simp

/-! ## Workers that look up their results -/

/-- What a request asks for, as it goes into the fingerprint. -/
def asked (request : Object α) : Value α :=
  .record [("blocks", request.value "blocks"), ("parameters", request.value "parameters"),
    ("config", request.value "config")]

/-- The worker that has its results ready under the fingerprints of what may be asked for, and is late
with everything else. -/
def lookingUp (ready : String → Option (Report α)) (request : Object α) : Completion α :=
  match Assignment.fingerprint (asked request) with
  | .error f => .failed f
  | .ok key =>
    match ready key with
    | some r => .answered (.result .null .null r)
    | none => .reported (some "timed out") none .null

theorem lookingUp_requestOf (ready : String → Option (Report α)) (id : String) (j : Job α) :
    lookingUp ready (requestOf id j) =
      match fingerprint j with
      | .error f => .failed f
      | .ok key =>
        match ready key with
        | some r => .answered (.result .null .null r)
        | none => .reported (some "timed out") none .null := rfl

theorem answerTo_lookingUp (plan : SchedulerPlan α) (ready : String → Option (Report α)) {j : Job α} {key : String}
    (hkey : fingerprint j = .ok key) : answerTo plan (lookingUp ready) j =
      failureOf plan j.parameters
        (match ready key with
        | some r => .answered (.result .null .null r)
        | none => .reported (some "timed out") none .null) := by
  unfold answerTo
  rw [lookingUp_requestOf, hkey]

theorem lookingUp_steady (plan : SchedulerPlan α) (ready : String → Option (Report α)) :
    Steady plan (lookingUp ready) := by
  refine ⟨fun request => ?_, fun id j => rfl, fun j j' key r hkey hkey' hanswer => ?_⟩
  · unfold lookingUp
    split
    · rfl
    · split <;> rfl
  · rw [answerTo_lookingUp plan ready hkey] at hanswer
    rw [answerTo_lookingUp plan ready hkey']
    cases hready : ready key with
    | none => rw [hready] at hanswer; cases hanswer
    | some report =>
      rw [hready] at hanswer
      exact hanswer

/-- A day of a strategy of one block, which states limits for a token. -/
def limitsFor (token : Value α) : Job α :=
  { blocks := [{ id := "limits", kind := "risk_limits", category := .risk, params := [(.text "asset", token)],
                 label := "" }]
    parameters := .object []
    config := { start := .known 0, stop := .known 86400000000000, capital := .whole 1000, interval := .whole 3600000,
                baseCurrency := "USDC", holdings := [], granularity := .null } }

theorem limitsFor_writable {token : Value α} (h : token.Plain) : (limitsFor token).Writable where
  params b hb := by
    rw [List.mem_singleton.1 hb]
    refine .object (fun f hf => ⟨"asset", ?_⟩) (List.nodup_singleton _) fun f hf => ?_ <;> rw [List.mem_singleton.1 hf]
    exact h
  parameters := .object nofun List.nodup_nil nofun
  holdings := .object nofun List.nodup_nil nofun
  granularity := .null

/-! ## Batches -/

/-- A batch comes to an end in every order of its steps, and in every order to what its jobs come to
alone. -/
theorem batch_ends (hwork : Steady plan work) {s₀ : Scheduler α} (hsound : Sound plan work s₀) {jobs : List (Job α)}
    (hkeys : ∀ j ∈ jobs, ∃ key, fingerprint j = .ok key) (hlimit : 0 < limit) :
    (∃ bound, ∀ n b, Run plan work limit n (start s₀ jobs) b → n ≤ bound) ∧
      ∀ n b, Run plan work limit n (start s₀ jobs) b →
        (b.isOver = false → ∃ b', Step plan work limit b b') ∧ (b.isOver = true → Ends plan work s₀ jobs b) := by
  have hstart : Inv plan work s₀ jobs (start s₀ jobs) := start_inv hsound hkeys
  -- every step lowers what may remain, so that what remains at the start bounds all runs
  refine ⟨⟨(start s₀ jobs).remaining plan, fun n b hrun => ?_⟩, fun n b hrun => ⟨proceeds plan work hlimit, ?_⟩⟩
  · have := Run.le_remaining hwork hstart hrun
    omega
  · exact (hstart.run hwork hrun).ends hwork hsound

/-- A batch on two workers, the result of one of its jobs being kept already. -/
theorem tokens_end :
    let known : Job Float := limitsFor (.text "ETH")
    let key := String.ofList (Json.written known.toValue)
    let work := lookingUp fun k => if k = key then some (default : Report Float) else none
    let s : Scheduler Float := { empty with cache := [(key, (default : Report Float).stored)], misses := 1 }
    let jobs : List (Job Float) := [limitsFor (.text "BTC"), known, limitsFor (.text "BTC")]
    let plan : SchedulerPlan Float := .default
    Steady plan work ∧ Sound plan work s ∧ (∀ j ∈ jobs, ∃ key, fingerprint j = .ok key) ∧ 0 < 2 ∧
      (∃ bound, ∀ n b, Run plan work 2 n (start s jobs) b → n ≤ bound) ∧
      ∀ n b, Run plan work 2 n (start s jobs) b →
        (b.isOver = false → ∃ b', Step plan work 2 b b') ∧ (b.isOver = true → Ends plan work s jobs b) := by
  intro known key work s jobs plan
  have hkey : ∀ token, fingerprint (limitsFor (.text token) : Job Float) = .ok _ := fun token =>
    fingerprint_writable (limitsFor_writable (.text token))
  have hsteady : Steady plan work := lookingUp_steady plan _
  have hsound : Sound plan work s := by
    intro key' r hlookup
    by_cases h : key' = key
    · subst h
      refine ⟨known, hkey "ETH", ?_⟩
      rw [answerTo_lookingUp plan _ (hkey "ETH"), if_pos rfl]
      rw [show s.cache = [(key, _)] from rfl, List.lookup_cons, beq_self_eq_true] at hlookup
      exact congrArg Except.ok (Option.some.inj hlookup)
    · rw [show s.cache = [(key, _)] from rfl, List.lookup_cons, beq_eq_false_iff_ne.2 h] at hlookup
      cases hlookup
  have hkeys : ∀ j ∈ jobs, ∃ key, fingerprint j = .ok key := by
    simp only [jobs, List.forall_mem_cons]
    exact ⟨⟨_, hkey "BTC"⟩, ⟨_, hkey "ETH"⟩, ⟨_, hkey "BTC"⟩, nofun⟩
  exact ⟨hsteady, hsound, hkeys, two_pos, batch_ends hsteady hsound hkeys two_pos⟩

/-! ## Sequences and lists -/

/-- The worker that answers jobs for a fixed sequence of tokens only. -/
def sequencesOnly (request : Object α) : Completion α :=
  match (request.items "blocks").map fun b => (b.fieldsD.fields "params").value "asset" with
  | [Value.tuple _] => .answered (.result .null .null default)
  | _ => .reported none (some "DataError") .null

theorem limitsFor_fingerprint (items : List (Value α)) (hitems : ∀ v ∈ items, v.Plain) :
    fingerprint (limitsFor (.tuple items)) = fingerprint (limitsFor (.list items)) := by
  rw [fingerprint_writable (limitsFor_writable (.tuple hitems)), fingerprint_writable (limitsFor_writable (.list hitems))]
  rfl

/-- A worker that tells a fixed sequence from a list answers a job in a batch that it does not answer
alone. -/
theorem tuple_answered_as_list :
    let first : Job Float := limitsFor (.tuple [.text "ETH"])
    let second : Job Float := limitsFor (.list [.text "ETH"])
    let plan : SchedulerPlan Float := .default
    (∀ request : Object Float, staysActive (sequencesOnly request) = false) ∧
      (∀ id j, failureOf plan j.parameters (sequencesOnly (requestOf id j)) = answerTo plan sequencesOnly j) ∧
      (∀ j ∈ [first, second], ∃ key, fingerprint j = .ok key) ∧
      ∃ n b, Run plan sequencesOnly 1 n (start empty [first, second]) b ∧ b.isOver = true ∧
        b.outcomes ≠ [first, second].map fun j => some (alone plan sequencesOnly empty j) := by
  intro first second plan
  have hplain : ∀ v ∈ [(Value.text "ETH" : Value Float)], v.Plain := fun v hv => by
    rw [List.mem_singleton.1 hv]
    exact .text _
  obtain ⟨key, hkey⟩ : ∃ key, fingerprint second = .ok key := ⟨_, fingerprint_writable (limitsFor_writable (.list hplain))⟩
  have hsame : fingerprint first = .ok key := (limitsFor_fingerprint _ hplain).trans hkey
  let r := (default : Report Float).stored
  obtain ⟨s₁, hkept, hfirst⟩ : ∃ s₁, s₁.cache.lookup key = some r ∧
      runMember plan (answering Unit sequencesOnly) first (empty, ()) = (.ok r, (s₁, ())) :=
    ⟨_, (lookup_keep _ key r key).trans (if_pos rfl), runMember_answered hsame rfl () rfl rfl⟩
  have halone : ∃ f s₂, runMember plan (answering Unit sequencesOnly) second (empty, ()) = (.error f, (s₂, ())) :=
    ⟨_, _, runMember_refused hkey rfl () rfl rfl rfl⟩
  obtain ⟨os, s', hbatch, -, n, hrun⟩ := runBatch_reaches plan sequencesOnly one_pos () [first, second] []
    empty fun _ h => absurd h List.not_mem_nil
  -- the second job finds the result of the first
  have houtcomes : os = [.ok r, .ok r] := by
    rw [runBatch_cons _ hfirst, runBatch_cons _ (runMember_hit _ hkey hkept ())] at hbatch
    exact (congrArg Prod.fst hbatch).symm
  refine ⟨fun request => ?_, fun id j => rfl, ?_, n, _, hrun, ?_, fun hequal => ?_⟩
  · unfold sequencesOnly
    split <;> rfl
  · simp only [List.forall_mem_cons]
    exact ⟨⟨key, hsame⟩, ⟨key, hkey⟩, nofun⟩
  · rw [houtcomes]
    rfl
  · rw [houtcomes] at hequal
    have hsecond := congrArg (fun os => os[1]?) hequal
    unfold alone at hsecond
    simp only [List.map_cons] at hsecond
    obtain ⟨f, s₂, hrefused⟩ := halone
    rw [hrefused] at hsecond
    cases hsecond

end StrategyLab.Batch
