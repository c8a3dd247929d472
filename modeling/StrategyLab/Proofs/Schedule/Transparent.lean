/-
A scheduler on a pool of threads answers as the direct run does. Requests come one after the other;
whatever came before, each is answered with the result of its direct run, whether that is kept or not,
or with a failure where the direct run raises a fault, and then nothing is kept (`runJob_reflects`).
What carries the proof is that every kept result is that of all jobs with its fingerprint (`Faithful`).
-/
import StrategyLab.Proofs.Schedule.Batch
import StrategyLab.Proofs.Schedule.Worker
import StrategyLab.Proofs.Simulation.Prefix
import StrategyLab.Schedule.Thread

namespace StrategyLab

/-! ## Pools of threads -/

namespace Host

variable {α : Type} [Scalar α]

/-- Once a pool is started, requests to it are answered from its own price data. -/
def Serves (p : Host α) (number : Nat) (o : Oracle α) : Prop := (p.ensure number o).installed = some o

omit [Scalar α] in
theorem ensure_started (p : Host α) (number : Nat) (o : Oracle α) :
    (p.ensure number o).ensure number o = p.ensure number o := by
  have hstarted : (p.ensure number o).started.contains number = true := by
    unfold ensure
    split
    · assumption
    · simp
  exact if_pos hstarted

omit [Scalar α] in
theorem Serves.of_new {p : Host α} {number : Nat} (o : Oracle α) (h : number ∉ p.started) : p.Serves number o := by
  unfold Serves ensure
  rw [if_neg (by simpa using h)]

omit [Scalar α] in
theorem Serves.ensure {p : Host α} {number : Nat} {o : Oracle α} (h : p.Serves number o) :
    (p.ensure number o).Serves number o := by
  unfold Serves at h ⊢
  rw [ensure_started, h]

/-- What the threads of a pool answer. -/
def answers (o : Oracle α) (request : Object α) : Completion α := .answered (Worker.answer (some o) request)

theorem Serves.pool {p : Host α} {number : Nat} {o : Oracle α} (h : p.Serves number o) (request : Object α) :
    pool number (.ok o) request p = (answers o request, p.ensure number o) := by
  unfold Serves at h
  unfold Host.pool
  dsimp only
  rw [h]
  rfl

end Host

/-! ## Attempts -/

namespace Scheduler

open Batch (attempts attempts_eq attempts_sequel sequel sequel_lt bind_run answered evaluated evaluate_eq evaluateAndKeep runJob_hit runJob_miss)

variable [ExactArithmetic] (plan : SchedulerPlan ℚ) {number : Nat} {o : Oracle ℚ} {j : Job ℚ}

/-- In exact arithmetic every delay can be computed. -/
theorem delay_exact (attempt : Nat) : ∃ d, Retry.delay plan.retry attempt = .ok d := by
  have hreal : ∀ x : Num ℚ, Value.realOfNum x = .ok x.value := fun x => by
    unfold Value.realOfNum
    rw [Num.value?_exact]
  obtain ⟨x, hx⟩ : ∃ x, Retry.product plan.retry.initialDelay (Retry.powerOfTwo ((attempt : Int) - 1)) = .ok x := by
    unfold Retry.product
    split
    · exact ⟨_, rfl⟩
    · rw [hreal, hreal]
      exact ⟨_, rfl⟩
  unfold Retry.delay
  rw [hx]
  exact ⟨_, rfl⟩

omit [ExactArithmetic] in
theorem answered_cache (s : Scheduler ℚ) (c : Completion ℚ) : (answered s c).cache = s.cache := by
  unfold answered
  split <;> rfl

omit [ExactArithmetic] in
theorem keep_cache {s s' : Scheduler ℚ} (h : s'.cache = s.cache) (key : String) (r : StoredReport ℚ) :
    (s'.keep key r).cache = (s.keep key r).cache := by
  unfold keep
  rw [h]

/-- Attempts that are over with a failure report it, since no delay is in the way. -/
theorem sequel_failure {made left : Nat} {e : Failure ℚ} {x : Except (RetryFailure (JobFault ℚ)) (StoredReport ℚ)}
    (h : sequel plan made left (.error (.failure e)) = .inl x) : ∃ stopped, x = .error stopped ∧ stopped.cause = .failure e := by
  unfold sequel at h
  dsimp only at h
  split at h
  · cases h
    exact ⟨_, rfl, rfl⟩
  cases left with
  | zero =>
    cases h
    exact ⟨_, rfl, rfl⟩
  | succ n =>
    obtain ⟨d, hd⟩ := delay_exact plan (made + 1)
    rw [hd] at h
    cases h

/-- Attempts of which each comes to a failure come to one, and nothing is kept. -/
theorem attempts_fail {pool : Pool (Host ℚ) ℚ} {ready : Host ℚ} {work : Object ℚ → Completion ℚ}
    (hready : ∀ request, pool request ready = (work request, ready))
    (hfail : ∀ id, ∃ e, failureOf plan j.parameters (work (requestOf id j)) = .error (.failure e))
    (left made : Nat) (s : Scheduler ℚ) {p : Host ℚ} (hp : ∀ request, pool request p = (work request, ready)) :
    ∃ stopped e s', attempts plan pool j made left (s, p) = (.error stopped, (s', ready)) ∧
      stopped.cause = .failure e ∧ s'.cache = s.cache := by
  induction left using Nat.strong_induction_on generalizing made s p with
  | _ left ih =>
    obtain ⟨e, he⟩ := hfail s!"task-{s.submitted + 1}"
    have hrun := attempts_sequel plan j made left s (hp (requestOf s!"task-{s.submitted + 1}" j))
    rw [he] at hrun
    cases hsequel : sequel plan made left (.error (.failure e)) with
    | inl x =>
      obtain ⟨stopped, rfl, hcause⟩ := sequel_failure plan hsequel
      rw [hsequel] at hrun
      exact ⟨stopped, e, _, hrun, hcause, answered_cache _ _⟩
    | inr next =>
      rw [hsequel] at hrun
      obtain ⟨stopped, e', s', hattempts, hcause, hcache⟩ := ih next.2 (sequel_lt hsequel) (made + 1)
        ((answered s (work (requestOf s!"task-{s.submitted + 1}" j))).wait next.1) hready
      exact ⟨stopped, e', s', hrun.trans hattempts, hcause, hcache.trans (answered_cache s _)⟩

/-! ## Requests -/

/-- An answer that tells what the direct run comes to: its result as it is stored, or a failure in the
place of a fault, with nothing more kept than before. -/
inductive Reflects (s : Scheduler ℚ) :
    Except (Fault ℚ) (Report ℚ) → Except (JobFault ℚ) (StoredReport ℚ) → Scheduler ℚ → Prop
  | result (r : Report ℚ) (s' : Scheduler ℚ) : Reflects s (.ok r) (.ok r.stored) s'
  | failure (f : Fault ℚ) (e : Failure ℚ) {s' : Scheduler ℚ} (hcache : s'.cache = s.cache) :
      Reflects s (.error f) (.error (.failure e)) s'

omit [ExactArithmetic] in
theorem Reflects.result_eq {s s' : Scheduler ℚ} {r : Report ℚ} {answer : Except (JobFault ℚ) (StoredReport ℚ)}
    (h : Reflects s (.ok r) answer s') : answer = .ok r.stored := by
  cases h
  rfl

omit [ExactArithmetic] in
theorem Reflects.failure_eq {s s' : Scheduler ℚ} {f : Fault ℚ} {answer : Except (JobFault ℚ) (StoredReport ℚ)}
    (h : Reflects s (.error f) answer s') : (∃ e, answer = .error (.failure e)) ∧ s'.cache = s.cache := by
  cases h with
  | failure _ e hcache => exact ⟨⟨e, rfl⟩, hcache⟩

/-- Every kept result is that of all jobs with its fingerprint. -/
def Faithful (o : Oracle ℚ) (s : Scheduler ℚ) : Prop :=
  ∀ key r, s.cache.lookup key = some r → ∀ j : Job ℚ, j.Regular → fingerprint j = .ok key →
    ∃ report, j.simulate o = .ok report ∧ r = report.stored

theorem faithful_empty (o : Oracle ℚ) : Faithful o empty := fun _ _ h => by cases h

theorem Faithful.of_cache {s s' : Scheduler ℚ} (h : Faithful o s) (hcache : s'.cache = s.cache) : Faithful o s' :=
  fun key r hlookup => h key r (hcache ▸ hlookup)

/-- A result that is kept is that of all jobs with its fingerprint, since their runs are alike. -/
theorem Faithful.keep (hα : Json.Legible ℚ) {s : Scheduler ℚ} (h : Faithful o s) (hj : j.Regular) {key : String}
    (hkey : fingerprint j = .ok key) {report : Report ℚ} (hreport : j.simulate o = .ok report) :
    Faithful o (s.keep key report.stored) := by
  intro key' r hlookup j' hj' hkey'
  rw [lookup_keep] at hlookup
  split at hlookup
  · rename_i hsame
    subst hsame
    have halike := Job.alike_of_fingerprint hα hj.toCarried hj'.toCarried (hkey.trans hkey'.symm)
    have hagree := Job.simulate_alike o hj hj' halike
    rw [hreport] at hagree
    generalize j'.simulate o = x at hagree
    cases hagree with
    | ok heq =>
      subst heq
      exact ⟨report, rfl, (Option.some.inj hlookup).symm⟩
  · exact h key' r hlookup j' hj' hkey'

/-- A job that is evaluated is answered with the result of its direct run, which is kept. -/
theorem evaluateAndKeep_ok {p : Host ℚ} (hp : p.Serves number o) (hj : j.Carried) {r : Report ℚ}
    (h : j.simulate o = .ok r) (key : String) (s : Scheduler ℚ) :
    ∃ s', evaluateAndKeep plan (Host.pool number (.ok o)) j key (s, p) = (.ok r.stored, (s', p.ensure number o)) ∧
      s'.cache = (s.keep key r.stored).cache := by
  have hattempts := attempts_eq plan j 0 plan.retry.retries.toNat s (hp.pool (requestOf s!"task-{s.submitted + 1}" j))
  unfold Host.answers at hattempts
  rw [failureOf_answer_ok plan hj h] at hattempts
  dsimp only at hattempts
  unfold evaluateAndKeep
  rw [bind_run, evaluate_eq j hattempts]
  exact ⟨_, rfl, keep_cache (answered_cache s _) key r.stored⟩

/-- A job that is evaluated is answered with a failure where its direct run raises a fault. -/
theorem evaluateAndKeep_error {p : Host ℚ} (hp : p.Serves number o) (hj : j.Carried) {f : Fault ℚ}
    (h : j.simulate o = .error f) (key : String) (s : Scheduler ℚ) :
    ∃ e s', evaluateAndKeep plan (Host.pool number (.ok o)) j key (s, p) =
      (.error (.failure e), (s', p.ensure number o)) ∧ s'.cache = s.cache := by
  have hready : ∀ request, Host.pool number (.ok o) request (p.ensure number o) =
      (Host.answers o request, p.ensure number o) := fun request => by
    rw [hp.ensure.pool, Host.ensure_started]
  obtain ⟨stopped, e, s', hattempts, hcause, hcache⟩ := attempts_fail plan hready
    (fun id => failureOf_answer_error plan hj h id) plan.retry.retries.toNat 0 s hp.pool
  unfold evaluateAndKeep
  rw [bind_run, evaluate_eq j hattempts]
  unfold evaluated
  dsimp only
  rw [hcause]
  exact ⟨e, _, rfl, hcache⟩

/-- A request is answered as its direct run comes out, from what is kept or from an evaluation. -/
theorem runJob_reflects (hα : Json.Legible ℚ) {s : Scheduler ℚ} (hs : Faithful o s) {p : Host ℚ}
    (hp : p.Serves number o) (hj : j.Regular) : ∃ answer s' p', runJob plan (Host.pool number (.ok o)) j (s, p) =
      (answer, (s', p')) ∧ Reflects s (j.simulate o) answer s' ∧ Faithful o s' ∧ p'.Serves number o := by
  obtain ⟨key, hkey⟩ : ∃ key, fingerprint j = .ok key := ⟨_, fingerprint_writable hj.toWritable⟩
  cases hlookup : s.cache.lookup key with
  | some r =>
    obtain ⟨report, hreport, rfl⟩ := hs key r hlookup j hj hkey
    refine ⟨_, _, _, runJob_hit _ hkey hlookup p, ?_, hs.of_cache rfl, hp⟩
    rw [hreport]
    exact .result report _
  | none =>
    have hcounted : Faithful o { s with misses := s.misses + 1 } := hs.of_cache rfl
    cases hdirect : j.simulate o with
    | ok report =>
      obtain ⟨s', heval, hcache⟩ := evaluateAndKeep_ok plan hp hj.toCarried hdirect key
        { s with misses := s.misses + 1 }
      refine ⟨_, s', _, (runJob_miss _ hkey hlookup p).trans heval, .result report s', ?_, hp.ensure⟩
      exact (hcounted.keep hα hj hkey hdirect).of_cache hcache
    | error f =>
      obtain ⟨e, s', heval, hcache⟩ := evaluateAndKeep_error plan hp hj.toCarried hdirect key
        { s with misses := s.misses + 1 }
      exact ⟨_, s', _, (runJob_miss _ hkey hlookup p).trans heval, .failure f e hcache, hcounted.of_cache hcache,
        hp.ensure⟩

/-- After any requests the kept results are still those of the jobs. -/
theorem requests_faithful (hα : Json.Legible ℚ) : ∀ {jobs : List (Job ℚ)} {s : Scheduler ℚ} {p : Host ℚ},
    (∀ j ∈ jobs, j.Regular) → Faithful o s → p.Serves number o →
      ∃ answers s' p', jobs.mapM (runJob plan (Host.pool number (.ok o))) (s, p) = (answers, (s', p')) ∧
        Faithful o s' ∧ p'.Serves number o
  | [], s, p, _, hs, hp => ⟨[], s, p, rfl, hs, hp⟩
  | j :: rest, s, p, hjobs, hs, hp => by
    obtain ⟨answer, s₁, p₁, hfirst, -, hs₁, hp₁⟩ := runJob_reflects plan hα hs hp (hjobs j List.mem_cons_self)
    obtain ⟨answers, s', p', hrest, hs', hp'⟩ :=
      requests_faithful hα (fun x hx => hjobs x (List.mem_cons_of_mem j hx)) hs₁ hp₁
    refine ⟨answer :: answers, s', p', ?_, hs', hp'⟩
    rw [List.mapM_cons, bind_run, hfirst, bind_run, hrest]
    rfl

/-- The scheduler is transparent: whatever requests came before, each is answered with the result of its
direct run, or with a failure where that run raises a fault, and then nothing more is kept. -/
theorem requests_transparent (hα : Json.Legible ℚ) {data : List (String × PriceData ℚ)}
    (hdata : Oracle.ofData data = .ok o) {host : Host ℚ} (hnew : number ∉ host.started) {earlier : List (Job ℚ)}
    (hearlier : ∀ x ∈ earlier, x.Regular) (hj : j.Regular) :
    let pool := Host.pool number (Oracle.ofData data)
    let before := (earlier.mapM (runJob plan pool) (empty, host)).2
    let after := runJob plan pool j before
    Reflects before.1 (j.simulate o) after.1 after.2.1 := by
  intro pool before after
  -- what was asked before leaves a cache that says no more than the simulations do
  obtain ⟨answers, s, p, hbefore, hs, hp⟩ :=
    requests_faithful plan hα hearlier (faithful_empty o) (Host.Serves.of_new o hnew)
  obtain ⟨answer, s', p', hafter, hreflects, -⟩ := runJob_reflects plan hα hs hp hj
  have hpool : pool = Host.pool number (.ok o) := by
    show Host.pool number (Oracle.ofData data) = _
    rw [hdata]
  have hstate : before = (s, p) := by
    show (earlier.mapM (runJob plan pool) (empty, host)).2 = _
    rw [hpool, hbefore]
  have hanswer : after = (answer, (s', p')) := by
    show runJob plan pool j before = _
    rw [hpool, hstate, hafter]
  rw [hanswer, hstate]
  exact hreflects

end Scheduler

/-! ## Texts of fractions -/

/-- Exact arithmetic in which a fraction is written with its numerator and its denominator. -/
local instance fractionsWritten : ExactArithmetic :=
  { (default : ExactArithmetic) with
    text := fun q => toString q.num ++ (if q.den = 1 then ".0" else "/" ++ toString (q.den : Int)) }

/-- What follows the numerator. -/
def afterNumerator (q : ℚ) : List Char := if q.den = 1 then ['.', '0'] else '/' :: (toString (q.den : Int)).toList

theorem toList_numText_real (q : ℚ) : (Json.numText (.real q)).toList = (toString q.num).toList ++ afterNumerator q := by
  show (toString q.num ++ (if q.den = 1 then ".0" else "/" ++ toString (q.den : Int))).toList = _
  unfold afterNumerator
  split <;> simp [String.toList_append]

theorem afterNumerator_first (q : ℚ) : ∃ c rest, afterNumerator q = c :: rest ∧ (c = '.' ∨ c = '/') := by
  unfold afterNumerator
  split
  · exact ⟨'.', _, rfl, .inl rfl⟩
  · exact ⟨'/', _, rfl, .inr rfl⟩

theorem numText_letters (q : ℚ) : ∀ c ∈ (Json.numText (.real q)).toList, c.isDigit = true ∨ c ∈ ['-', '.', '/'] := by
  have hwhole : ∀ n : Int, ∀ c ∈ (toString n).toList, c.isDigit = true ∨ c ∈ ['-', '.', '/'] := fun n c hc =>
    ((Json.whole_letters n).2 c hc).imp_right fun h => List.mem_cons.2 (.inl h)
  intro c hc
  rw [toList_numText_real, List.mem_append] at hc
  rcases hc with hc | hc
  · exact hwhole _ c hc
  unfold afterNumerator at hc
  split at hc
  · simp only [List.mem_cons, List.not_mem_nil, or_false] at hc
    rcases hc with rfl | rfl
    · exact .inr (by decide)
    · exact .inl (by decide)
  · rcases List.mem_cons.1 hc with rfl | hc
    · exact .inr (by decide)
    · exact hwhole _ c hc

theorem afterNumerator_injective {q q' : ℚ} (h : afterNumerator q = afterNumerator q') : q.den = q'.den := by
  unfold afterNumerator at h
  split at h
  · split at h
    · rename_i hone hone'
      rw [hone, hone']
    · cases h
  · split at h
    · cases h
    · have hread : (toString (q.den : Int)).toInt? = some (q.den : Int) := Int.toInt?_repr _
      rw [String.toList_inj.1 (List.cons.inj h).2, show (toString (q'.den : Int)).toInt? = _ from Int.toInt?_repr _] at hread
      exact_mod_cast (Option.some.inj hread).symm

/-- The numerator ends where the rest begins. -/
theorem numerator_ends (q : ℚ) : ∀ c ∈ (afterNumerator q).head?, ¬ (c.isDigit = true ∨ c = '-') := by
  obtain ⟨d, rest, heq, hd⟩ := afterNumerator_first q
  intro c hc
  rw [heq] at hc
  obtain rfl : d = c := Option.some.inj hc
  rcases hd with rfl | rfl <;> decide

theorem legible_fractions : Json.Legible ℚ where
  injective x y h := by
    have hletters := congrArg String.toList h
    rw [toList_numText_real, toList_numText_real] at hletters
    obtain ⟨hnum, hafter⟩ := Json.word_unique (Json.whole_letters x.num).2 (Json.whole_letters y.num).2 (numerator_ends x)
      (numerator_ends y) hletters
    have hread : (toString x.num).toInt? = some x.num := Int.toInt?_repr _
    rw [String.toList_inj.1 hnum, show (toString y.num).toInt? = some y.num from Int.toInt?_repr _] at hread
    exact Rat.ext (Option.some.inj hread).symm (afterNumerator_injective hafter)
  nonempty x h := by
    have hletters := congrArg String.toList h
    rw [toList_numText_real] at hletters
    exact (Json.whole_letters x.num).1 (List.append_eq_nil_iff.1 hletters).1
  unmarked x c hc hmark := by
    have := numText_letters x c hc
    simp only [Json.marks, List.mem_cons, List.not_mem_nil, or_false] at hmark
    rcases hmark with rfl | rfl | rfl | rfl | rfl | rfl <;> revert this <;> decide
  apart x h := by
    have hletters := numText_letters x
    simp only [List.mem_cons, List.not_mem_nil, or_false] at h
    rcases h with h | h | h <;> rw [h] at hletters
    · exact absurd (hletters 'l' (by decide)) (by decide)
    · exact absurd (hletters 't' (by decide)) (by decide)
    · exact absurd (hletters 'f' (by decide)) (by decide)
  fractional x n h := by
    obtain ⟨c, rest, heq, hc⟩ := afterNumerator_first x
    have hmem : c ∈ (Json.numText (.real x)).toList := by
      rw [toList_numText_real, heq]
      exact List.mem_append_right _ List.mem_cons_self
    rw [h] at hmem
    have := (Json.whole_letters n).2 c hmem
    rcases hc with rfl | rfl <;> revert this <;> decide

/-! ## Two purchases and a refusal -/

namespace Scheduler

open Batch (runJob_hit runJob_miss)
open Simulation (etherBought everyMillisecond)

/-- A job of one block over two milliseconds. -/
def briefly (b : Block ℚ) : Job ℚ :=
  { blocks := [b], parameters := .object [], config := everyMillisecond 2000000 }

theorem overrideBlocks_none (bs : List (Block ℚ)) : Assignment.overrideBlocks (.object []) bs = .ok bs := by
  have hsame : ∀ b ∈ bs, Assignment.overrideBlock (.object []) b = .ok (id b) := fun b _ => by
    rw [Assignment.overrideBlock_object]
    rfl
  exact (mapM_ok hsame).trans (by rw [List.map_id])

theorem everyMillisecond_checked : (everyMillisecond 2000000).Checked where
  start ns h := by
    cases h
    decide
  stop ns h := by
    cases h
    decide
  order := by decide
  capital := by decide +kernel
  interval := ⟨1, by decide, rfl⟩

theorem briefly_carried {b : Block ℚ} (hkind : b.kind ≠ "") (hparams : (Value.object b.params).Plain) :
    (briefly b).Carried where
  params x hx := by
    rw [List.mem_singleton.1 hx]
    exact hparams
  parameters := .object nofun List.nodup_nil nofun
  holdings := .object nofun List.nodup_nil nofun
  granularity := .null
  kinds x hx := by
    rw [List.mem_singleton.1 hx]
    exact hkind
  checked := everyMillisecond_checked
  named := ⟨[], rfl⟩

theorem briefly_regular {b : Block ℚ} (hkind : b.kind ≠ "") (hparams : (Value.object b.params).Plain)
    (hflat : ∀ f ∈ b.params, f.2.Flat) : (briefly b).Regular where
  toCarried := briefly_carried hkind hparams
  ordered ps hps x _ own hown := by
    cases hps
    cases hown
  texts bs hbs x hx name _ v hv := by
    cases (overrideBlocks_none [b]).symm.trans hbs
    rw [List.mem_singleton.1 hx] at hv
    exact hflat _ (Object.mem_of_get? hv)

-- one price throughout
def etherAtHundred : List (String × PriceData ℚ) := [("ETH", .points [.list [.num (.whole 0), .num (.real 100)]])]

def etherOracle : Oracle ℚ := [("ETH", #[⟨.known 0, 100⟩])]

theorem etherAtHundred_oracle : Oracle.ofData etherAtHundred = .ok etherOracle := by
  show Except.ok [("ETH", Series.ofSamples [⟨.known 0, 100⟩])] = _
  rw [Series.ofSamples_of_rising (by decide +kernel) (by simp) (List.pairwise_singleton _ _)]
  rfl

/-- The same purchase with its params in another order. -/
def etherBoughtAgain : Block ℚ := { etherBought with params := etherBought.params.reverse }

/-- Limits for a token. -/
def limitsStated (token : Value ℚ) : Block ℚ :=
  { id := "l", kind := "risk_limits", category := .risk, label := "", params := [(.text "asset", token)] }

theorem etherBought_params : (Value.object etherBought.params).Plain ∧ ∀ f ∈ etherBought.params, f.2.Flat := by
  constructor
  · refine .object ?_ (by decide) ?_
    · simp [etherBought]
    · simp only [etherBought, List.forall_mem_cons]
      exact ⟨.text _, .text _, .num _, nofun⟩
  · simp only [etherBought, List.forall_mem_cons]
    exact ⟨.text _, .text _, .num _, nofun⟩

theorem error_of_toOption {ε β : Type} {x : Except ε β} (h : x.toOption.isNone = true) : ∃ e, x = .error e := by
  cases x with
  | error e => exact ⟨e, rfl⟩
  | ok a => cases h

/-- A purchase that is asked for again, in other words, and a token that has no price. -/
theorem purchase_served_again :
    let pool := Host.pool 0 (Oracle.ofData etherAtHundred)
    let before := ([briefly etherBought].mapM (runJob .default pool) (empty, Host.fresh)).2
    let again := runJob .default pool (briefly etherBoughtAgain) before
    let refused := runJob .default pool (briefly (limitsStated (.text "BTC"))) before
    (∃ r, (briefly etherBoughtAgain).simulate etherOracle = .ok r ∧ r.trades.length = 3 ∧ again.1 = .ok r.stored) ∧
      (∃ f, (briefly (limitsStated (.text "BTC"))).simulate etherOracle = .error f) ∧
      (∃ e, refused.1 = .error (.failure e)) ∧ refused.2.1.cache = before.1.cache := by
  intro pool before again refused
  obtain ⟨hplain, hflat⟩ := etherBought_params
  have hfirst : ∀ x ∈ [briefly etherBought], x.Regular := fun x hx => by
    rw [List.mem_singleton.1 hx]
    exact briefly_regular (by decide) hplain hflat
  have hagain : (briefly etherBoughtAgain).Regular :=
    briefly_regular (by decide) (hplain.perm (List.reverse_perm _).symm) fun f hf => hflat f (List.mem_reverse.1 hf)
  have hlimits : (briefly (limitsStated (.text "BTC"))).Regular := by
    refine briefly_regular (by decide) (.object (fun f hf => ⟨"asset", ?_⟩) (List.nodup_singleton _) fun f hf => ?_)
      fun f hf => ?_ <;> rw [List.mem_singleton.1 hf]
    · exact .text _
    · exact .text _
  have hnew : 0 ∉ (Host.fresh : Host ℚ).started := List.not_mem_nil
  obtain ⟨r, hr, hthree⟩ := ok_of_toOption
    (show ((briefly etherBoughtAgain).simulate etherOracle).toOption.map (·.trades.length) = some 3 by decide +kernel)
  obtain ⟨f, hf⟩ := error_of_toOption
    (show ((briefly (limitsStated (.text "BTC"))).simulate etherOracle).toOption.isNone = true by decide +kernel)
  have hresult := requests_transparent .default legible_fractions etherAtHundred_oracle hnew hfirst hagain
  have hfailure := requests_transparent .default legible_fractions etherAtHundred_oracle hnew hfirst hlimits
  rw [hr] at hresult
  rw [hf] at hfailure
  exact ⟨⟨r, hr, hthree, hresult.result_eq⟩, ⟨f, hf⟩, hfailure.failure_eq⟩

/-! ## Sequences and lists -/

/-- A fixed sequence and a list have one fingerprint, but name two tokens. Where only the sequence has a
price, the list is answered with its result, although its direct run raises a fault. -/
theorem tuple_served_as_list :
    let o : Oracle ℚ := [("('A',)", #[⟨.known 0, 1⟩])]
    let pool := Host.pool 0 (.ok o)
    let first := briefly (limitsStated (.tuple [.text "A"]))
    let second := briefly (limitsStated (.list [.text "A"]))
    let before := (runJob .default pool first (empty, Host.fresh)).2
    first.Carried ∧ second.Carried ∧ (∃ f, second.simulate o = .error f) ∧
      ∃ r, (runJob .default pool second before).1 = .ok r := by
  intro o pool first second before
  have hplain : ∀ v ∈ [(Value.text "A" : Value ℚ)], v.Plain := fun v hv => by
    rw [List.mem_singleton.1 hv]
    exact .text _
  have hcarried : ∀ {token : Value ℚ}, token.Plain → (briefly (limitsStated token)).Carried := fun htoken =>
    briefly_carried (show "risk_limits" ≠ "" by decide) (.object (fun f hf => ⟨"asset", by rw [List.mem_singleton.1 hf]⟩)
      (List.nodup_singleton _) fun f hf => by rw [List.mem_singleton.1 hf]; exact htoken)
  have hfirst : first.Carried := hcarried (.tuple hplain)
  have hsecond : second.Carried := hcarried (.list hplain)
  obtain ⟨key, hkey⟩ : ∃ key, fingerprint second = .ok key := ⟨_, fingerprint_writable hsecond.toWritable⟩
  have hsame : fingerprint first = .ok key := by
    rw [← hkey, fingerprint_writable hfirst.toWritable, fingerprint_writable hsecond.toWritable]
    rfl
  obtain ⟨f, hf⟩ := error_of_toOption (show (second.simulate o).toOption.isNone = true by decide +kernel)
  obtain ⟨r, hr, -⟩ := ok_of_toOption (show (first.simulate o).toOption.map (fun _ => ()) = some () by decide +kernel)
  have hserves : (Host.fresh : Host ℚ).Serves 0 o := .of_new o List.not_mem_nil
  obtain ⟨s, heval, hcache⟩ := evaluateAndKeep_ok .default hserves hfirst hr key
    { (empty : Scheduler ℚ) with misses := 1 }
  have hbefore : before = (s, Host.fresh.ensure 0 o) := by
    show (runJob .default pool first (empty, Host.fresh)).2 = _
    rw [runJob_miss pool hsame rfl]
    exact congrArg Prod.snd heval
  have hhit : s.cache.lookup key = some r.stored := by
    rw [hcache, lookup_keep, if_pos rfl]
  refine ⟨hfirst, hsecond, ⟨f, hf⟩, r.stored, ?_⟩
  rw [hbefore, runJob_hit pool hkey hhit]

end Scheduler

end StrategyLab
