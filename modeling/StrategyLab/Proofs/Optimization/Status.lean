/-
The status a run leaves. Once a run has begun, every fault on the way stops it, and a run without a fault
is completed, so that its optimizer can run again. There is one gap (`optimize_leaves`): the configuration is
stored when the run counts as going on already and the search, whose faults stop the run, has not begun. If it
cannot be stored, the optimizer is left running, and refuses every later run. In a session this happens where
the names of the holdings have no order (`Session.unstored_iff`).
-/
import StrategyLab.Optimization.Session
import StrategyLab.Proofs.Optimization.Budget
import StrategyLab.Proofs.Optimization.Mirror
import StrategyLab.Proofs.Store.Deposit

namespace StrategyLab

open Stage

variable {ω σ α : Type} [Scalar α]

/-- A run could begin, but what stores its configuration refuses it. -/
structure Surroundings.Unstored (S : Surroundings (StateM ω) σ α) (blocks : List (Block α)) (c : SearchConfig α)
    (w : ω) (f : Fault α) (w' : ω) : Prop where
  valid : Optimizer.checkStrategy blocks = .ok ()
  planned : ∃ e, Evaluation.ofPlan blocks c.run S.plan = .ok e
  refused : (S.storeConfig c.toValue).run (S.now.run w).2 = (.error f, w')

namespace Optimizer

variable (S : Surroundings (StateM ω) σ α) (c : SearchConfig α) (blocks : List (Block α)) {o : Optimizer α} {w : ω}

/-! ## One run -/

/-- A run begins, is refused with nothing done, or cannot store its configuration. -/
theorem begin_leaves (h : o.status ≠ .running) (w : ω) :
    Leads (begin S blocks c) o w
      (fun _ o' _ => o' = started (S.now.run w).1 ∧ ∀ f w', ¬ S.Unstored blocks c w f w')
      fun f o' w' => o' = o ∧ w' = w ∧ (∀ f' w'', ¬ S.Unstored blocks c w f' w'') ∨
        o' = started (S.now.run w).1 ∧ S.Unstored blocks c w f w' := by
  unfold begin
  refine .get_bind ?_
  rw [if_neg h]
  refine .given_bind (fun f hinvalid => .inl ⟨rfl, rfl, ?_⟩) fun _ hvalid => ?_
  · rintro f' w'' hunstored
    cases hinvalid.symm.trans hunstored.valid
  refine .given_bind (fun f hunplanned => .inl ⟨rfl, rfl, ?_⟩) fun e hplan => ?_
  · rintro f' w'' hunstored
    obtain ⟨e, he⟩ := hunstored.planned
    cases hunplanned.symm.trans he
  -- from here on the run is going on
  refine .outside_bind (.set_bind (.attempting_bind (fun f w' hrefused => .inr ⟨rfl, ?_⟩) fun _ w' hstored =>
    .pure ⟨rfl, ?_⟩))
  · exact ⟨hvalid, ⟨e, hplan⟩, hrefused⟩
  · rintro f' w'' hunstored
    cases hstored.symm.trans hunstored.refused

/-- After its last evaluation a run is no longer going on, whether or not its result can be stored. -/
theorem finish_leaves (o : Optimizer α) (w : ω) :
    Leads (finish S c) o w (fun _ o' _ => o'.status ≠ .running) fun _ o' _ => o'.status ≠ .running := by
  unfold finish
  refine .modify_bind (.get_bind ?_)
  have hended :
      (if o.status = .running then ({ o with status := .completed } : Optimizer α) else o).status ≠ .running := by
    split
    · simp
    · assumption
  refine .reading_bind (fun _ _ => hended) fun marked _ => .set_bind (.outside_bind (.outside_bind ?_))
  exact .attempting_bind (fun _ _ _ => hended) fun _ _ _ => .pure hended

/-- A fault on the way stops the run. -/
theorem search_leaves [RandomSource σ α] (e : Evaluation α) (o : Optimizer α) (w : ω) :
    Leads (tryCatch (search S e c) fun f => do modify fun o => { o with status := .stopped }; throw f) o w
      (fun _ _ _ => True) fun _ o' _ => o'.status = .stopped :=
  .tryCatch (E := fun _ _ _ => True) ((Leads.any _ o w).mono (fun _ _ _ h => h) fun _ _ _ h => h) fun _ _ _ _ =>
    .modify_bind rfl

/-- An optimizer is left running by a run whose configuration cannot be stored, and by no other one. -/
theorem optimize_ends [RandomSource σ α] (h : o.status ≠ .running) (w : ω) :
    Leads (optimize S blocks c) o w
      (fun _ o' _ => o'.status ≠ .running ∧ ∀ f w', ¬ S.Unstored blocks c w f w')
      fun f o' w' => o'.status ≠ .running ∧ (∀ f' w'', ¬ S.Unstored blocks c w f' w'') ∨
        o' = started (S.now.run w).1 ∧ S.Unstored blocks c w f w' := by
  unfold optimize
  refine ((begin_leaves S c blocks h w).mono (fun _ _ _ h => h) fun _ _ _ hfails => ?_).bind ?_
  · rcases hfails with ⟨rfl, rfl, hstored⟩ | hunstored
    · exact .inl ⟨h, hstored⟩
    · exact .inr hunstored
  rintro e o₁ w₁ ⟨-, hstored⟩
  have hsearch := (search_leaves S c e o₁ w₁).mono (fun _ _ _ h => h) fun f o' w' hstopped =>
    show o'.status ≠ .running ∧ (∀ f' w'', ¬ S.Unstored blocks c w f' w'') ∨ o' = started (S.now.run w).1 ∧
      S.Unstored blocks c w f w' from .inl ⟨by rw [hstopped]; simp, hstored⟩
  refine hsearch.bind ?_
  rintro - o₂ w₂ -
  exact (finish_leaves S c o₂ w₂).mono (fun _ _ _ hended => ⟨hended, hstored⟩) fun _ _ _ hended =>
    .inl ⟨hended, hstored⟩

/-- The run whose configuration cannot be stored ends with that fault, and its optimizer has only just begun. -/
theorem optimize_unstored [RandomSource σ α] (h : o.status ≠ .running) {f : Fault α} {w' : ω}
    (hunstored : S.Unstored blocks c w f w') :
    execute (optimize S blocks c) o w = ((.error f, started (S.now.run w).1), w') := by
  have hleads := optimize_ends S c blocks h w
  unfold Leads at hleads
  generalize execute (optimize S blocks c) o w = p at hleads ⊢
  obtain ⟨⟨r, o'⟩, w''⟩ := p
  cases r with
  | ok r => exact absurd hunstored (hleads.2 f w')
  | error f' =>
    rcases hleads with ⟨-, hstored⟩ | ⟨rfl, hunstored'⟩
    · exact absurd hunstored (hstored f w')
    · cases hunstored.refused.symm.trans hunstored'.refused
      rfl

/-! ## Later runs -/

/-- What a run leaves to later ones. Whatever of its surroundings fails, however often and at which point, an
optimizer that was not running is left running if and only if its configuration could not be stored. Then the
run ends with that fault before anything is evaluated, and every later run is refused and does nothing; after
every other run, later ones go as those of an optimizer that has never run. -/
theorem optimize_leaves [RandomSource σ α] (h : o.status ≠ .running) (w : ω) :
    ((execute (optimize S blocks c) o w).1.2.status = .running ↔ ∃ f w', S.Unstored blocks c w f w') ∧
    (∀ f w', S.Unstored blocks c w f w' →
      execute (optimize S blocks c) o w = ((.error f, started (S.now.run w).1), w')) ∧
    ∀ (S' : Surroundings (StateM ω) σ α) (blocks' : List (Block α)) (c' : SearchConfig α) (later : ω)
      (left : Optimizer α), left = (execute (optimize S blocks c) o w).1.2 →
      (left.status = .running → execute (optimize S' blocks' c') left later = ((.error .alreadyRunning, left), later)) ∧
      (left.status ≠ .running →
        (execute (optimize S' blocks' c') left later).1.1 = (execute (optimize S' blocks' c') idle later).1.1 ∧
          (execute (optimize S' blocks' c') left later).2 = (execute (optimize S' blocks' c') idle later).2) := by
  have hidle : (idle : Optimizer α).status ≠ .running := by simp [idle]
  refine ⟨⟨fun hrunning => ?_, ?_⟩, fun f w' => optimize_unstored S c blocks h, ?_⟩
  · -- whatever else ends a run also ends its status
    have hleads := optimize_ends S c blocks h w
    unfold Leads at hleads
    generalize execute (optimize S blocks c) o w = p at hleads hrunning
    obtain ⟨⟨r, o'⟩, w'⟩ := p
    cases r with
    | ok r => exact absurd hrunning hleads.1
    | error f =>
      rcases hleads with ⟨hended, -⟩ | ⟨-, hunstored⟩
      · exact absurd hrunning hended
      · exact ⟨f, w', hunstored⟩
  · rintro ⟨f, w', hunstored⟩
    rw [optimize_unstored S c blocks h hunstored]
    rfl
  · rintro S' blocks' c' later left -
    exact ⟨fun hrunning => optimize_running S' c' blocks' hrunning later, fun hended =>
      optimize_afresh S' c' blocks' hended hidle later⟩

end Optimizer

/-! ## Sessions -/

namespace Session

variable {π : Type}

theorem writtenHoldings_toValue (c : SearchConfig α) : writtenHoldings c.toValue = c.run.sortedHoldings := rfl

/-- A configuration can be written where the names of its holdings have an order. -/
theorem writeConfig_spec (hα : Json.Readable α) (d : Directory) (c : SearchConfig α) :
    if Json.areComparable c.run.sortedHoldings then ∃ d', writeConfig d c.toValue = .ok d'
    else writeConfig d c.toValue = .error (.incomparable "<" "str" "int") := by
  unfold writeConfig Json.sortFields
  rw [writtenHoldings_toValue]
  split
  · obtain ⟨text, hsteps, -⟩ := RunDirectory.stepsToWrite_record hα RunDirectory.configFile c.toValue
    unfold RunDirectory.write
    rw [hsteps]
    exact ⟨_, rfl⟩
  · rfl

omit [Scalar α] in
/-- What a session stores changes its directory, or nothing. -/
theorem storing_run (action : Directory → Except (ValueFault α) Directory) (s : Session π α) :
    (storing (μ := Id) action).run s =
      match s.directory with
      | none => (.ok (), s)
      | some d =>
        match action d with
        | .ok d' => (.ok (), { s with directory := some d' })
        | .error cause => (.error (.value cause), s) := by
  have hget : (storing (μ := Id) action).run s = (match s.directory with
      | none => (pure (.ok ()) : StateT (Session π α) Id (Except (Fault α) Unit))
      | some d =>
        match action d with
        | .ok d' => do
          set { s with directory := some d' }
          pure (.ok ())
        | .error cause => pure (.error (.value cause))).run s := rfl
  rw [hget]
  cases s.directory with
  | none => rfl
  | some d =>
    dsimp only
    cases action d <;> rfl

/-- In a session the configuration of a run is refused where there is a directory to write it to and the names
of its holdings have no order. -/
theorem unstored_iff (hα : Json.Readable α) (now : Id α) (windows : WindowPlan α) (plan : SchedulerPlan α)
    (pool : Pool π α) (follow : Progress α → Stage (StateM (Session π α)) α Unit) (blocks : List (Block α))
    (c : SearchConfig α) (s s' : Session π α) (f : Fault α) :
    (Session.surroundings (μ := Id) now windows plan pool follow).Unstored blocks c s f s' ↔
      Optimizer.checkStrategy blocks = .ok () ∧ (∃ e, Evaluation.ofPlan blocks c.run windows = .ok e) ∧
        s.directory.isSome = true ∧ Json.areComparable c.run.sortedHoldings = false ∧
        f = .value (.incomparable "<" "str" "int") ∧ s' = s := by
  have hrun : ((Session.surroundings (μ := Id) now windows plan pool follow).storeConfig c.toValue).run
      (((Session.surroundings (μ := Id) now windows plan pool follow).now.run s).2) =
        (storing (μ := Id) fun d => writeConfig d c.toValue).run s := rfl
  constructor
  · rintro ⟨hvalid, hplanned, hrefused⟩
    rw [hrun, storing_run] at hrefused
    refine ⟨hvalid, hplanned, ?_⟩
    cases hdirectory : s.directory with
    | none =>
      rw [hdirectory] at hrefused
      cases hrefused
    | some d =>
      rw [hdirectory] at hrefused
      have hwrites := writeConfig_spec hα d c
      split at hwrites
      · obtain ⟨d', hd'⟩ := hwrites
        simp only [hd'] at hrefused
        cases hrefused
      · rename_i hnames
        simp only [hwrites] at hrefused
        cases hrefused
        exact ⟨rfl, by simpa using hnames, rfl, rfl⟩
  · rintro ⟨hvalid, hplanned, hdirectory, hnames, rfl, rfl⟩
    refine ⟨hvalid, hplanned, ?_⟩
    obtain ⟨d, hd⟩ := Option.isSome_iff_exists.1 hdirectory
    have hwrites := writeConfig_spec hα d c
    rw [if_neg (by simp [hnames])] at hwrites
    rw [hrun, storing_run, hd]
    simp only [hwrites]

end Session

/-! ### Holdings of which one has a number for a name -/

namespace Optimizer

local instance decimalsOfStatuses : Scalar ℚ := Decimals.scalars

/-- A session with a new directory, in which no task is ever answered. -/
def silentSession : Session Unit ℚ := { scheduler := .empty, pool := (), directory := some [] }

def silentSurroundings : Surroundings (StateM (Session Unit ℚ)) Twister ℚ :=
  Session.surroundings (μ := Id) 0 .default .default (fun _ => pure (.lost "")) fun _ => pure ()

/-- The search holds ether, and something that has a number for a name. -/
def searchWithMixedNames : SearchConfig ℚ :=
  let c := searchFor .bayesian 1
  { c with run := { c.run with holdings := [(.text "ETH", .real 1), (.num (.whole 1), .real 2)] } }

theorem searchWithMixedNames_unstored : silentSurroundings.Unstored swapped searchWithMixedNames silentSession
    (.value (.incomparable "<" "str" "int")) silentSession := by
  have hvalid : (checkStrategy swapped).toOption.map (fun _ => ()) = some () := by decide +kernel
  obtain ⟨u, hchecked, -⟩ := ok_of_toOption hvalid
  have hnames : Json.areComparable searchWithMixedNames.run.sortedHoldings = false := by cbv
  exact (Session.unstored_iff Decimals.readable _ _ _ _ _ _ _ _ _ _).2 ⟨hchecked, ⟨_, rfl⟩, rfl, hnames, rfl, rfl⟩

/-- The optimizer has never run, and is left running. -/
theorem mixedNames_left_running :
    (idle : Optimizer ℚ).status ≠ .running ∧
    silentSurroundings.Unstored swapped searchWithMixedNames silentSession (.value (.incomparable "<" "str" "int"))
      silentSession ∧
    (execute (optimize silentSurroundings swapped searchWithMixedNames) idle silentSession).1.2.status = .running := by
  have hidle : (idle : Optimizer ℚ).status ≠ .running := by simp [idle]
  have hunstored := searchWithMixedNames_unstored
  obtain ⟨hrunning, -⟩ := optimize_leaves silentSurroundings searchWithMixedNames swapped hidle silentSession
  exact ⟨hidle, hunstored, hrunning.2 ⟨_, _, hunstored⟩⟩

/-- Asked for the same run a second time it refuses, although no run is going on. -/
theorem mixedNames_second_run_refused :
    ∃ f o', execute (optimize silentSurroundings swapped searchWithMixedNames) idle silentSession =
        ((.error f, o'), silentSession) ∧ f ≠ .alreadyRunning ∧ o'.status = .running ∧
      execute (optimize silentSurroundings swapped searchWithMixedNames) o' silentSession =
        ((.error .alreadyRunning, o'), silentSession) := by
  have hidle : (idle : Optimizer ℚ).status ≠ .running := by simp [idle]
  refine ⟨_, _, optimize_unstored _ _ _ hidle searchWithMixedNames_unstored, by simp, rfl, ?_⟩
  apply optimize_running
  rfl

end Optimizer

end StrategyLab
