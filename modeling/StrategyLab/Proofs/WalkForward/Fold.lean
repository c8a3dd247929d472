/-
How the runs of an assignment over the walk-forward windows become its scores. The outcomes of a batch belong to the
windows by their places (`split_eq`), and the scores of the windows of which both runs succeeded are averaged, the
training runs and the test runs each for themselves (`aggregate_rows`).

Main statement: an evaluation fails just when each window has a run that failed, and otherwise gives the exact means
over the other windows (`evaluation_folds`).
-/
import StrategyLab.Optimization.Evaluation
import StrategyLab.Proofs.Agree
import StrategyLab.Proofs.Number.Exact
import StrategyLab.Proofs.Schedule.Sequential
import StrategyLab.Proofs.Value.Alike

namespace StrategyLab

/-! ## Outcomes and windows -/

namespace Evaluation

section

variable {α : Type}

/-- The results of a window, none if one of its runs failed. -/
def resultsAt (outcomes : List (JobOutcome α)) (i : Nat) : Option (StoredReport α × StoredReport α) :=
  match outcomes[2 * i]?, outcomes[2 * i + 1]? with
  | some (.ok train), some (.ok test) => some (train, test)
  | _, _ => none

/-- The results of the first windows of which both runs succeeded, in order. -/
def keptResults (outcomes : List (JobOutcome α)) (n : Nat) : List (StoredReport α × StoredReport α) :=
  (List.range n).filterMap (resultsAt outcomes)

/-- One of the runs of a window failed. -/
def failsAt (outcomes : List (JobOutcome α)) (i : Nat) : Bool :=
  outcomes[2 * i]?.any (!·.isOk) || outcomes[2 * i + 1]?.any (!·.isOk)

theorem failsAt_eq {outcomes : List (JobOutcome α)} {n i : Nat} (hlength : outcomes.length = 2 * n) (hi : i < n) :
    failsAt outcomes i = (resultsAt outcomes i).isNone := by
  obtain ⟨train, htrain⟩ : ∃ o, outcomes[2 * i]? = some o := ⟨_, List.getElem?_eq_getElem (by omega)⟩
  obtain ⟨test, htest⟩ : ∃ o, outcomes[2 * i + 1]? = some o := ⟨_, List.getElem?_eq_getElem (by omega)⟩
  unfold resultsAt failsAt
  rw [htrain, htest]
  cases train <;> cases test <;> rfl

/-- The outcomes are split by the windows they belong to. -/
theorem split_eq [Scalar α] : ∀ {n : Nat} {outcomes : List (JobOutcome α)}, outcomes.length = 2 * n →
    (split outcomes).1 = keptResults outcomes n ∧
      (split outcomes).2.length = (List.range n).countP (failsAt outcomes)
  | 0, outcomes, hlength => by
    rw [List.eq_nil_of_length_eq_zero hlength]
    exact ⟨rfl, rfl⟩
  | n + 1, outcomes, hlength => by
    obtain ⟨train, test, rest, rfl⟩ : ∃ train test rest, outcomes = train :: test :: rest := by
      match outcomes, hlength with
      | train :: test :: rest, _ => exact ⟨train, test, rest, rfl⟩
    have hrest : rest.length = 2 * n := by
      simp only [List.length_cons] at hlength
      omega
    obtain ⟨hkept, hfailed⟩ := split_eq hrest
    have hkept' : keptResults (train :: test :: rest) (n + 1) =
        (resultsAt (train :: test :: rest) 0).toList ++ keptResults rest n := by
      unfold keptResults
      rw [List.range_succ_eq_map, List.filterMap_cons, List.filterMap_map]
      cases resultsAt (train :: test :: rest) 0 <;> rfl
    have hfailed' : (List.range (n + 1)).countP (failsAt (train :: test :: rest)) =
        (List.range n).countP (failsAt rest) + if failsAt (train :: test :: rest) 0 then 1 else 0 := by
      rw [List.range_succ_eq_map, List.countP_cons, List.countP_map]
      rfl
    rw [hkept', hfailed', ← hkept, ← hfailed]
    cases train <;> cases test <;> exact ⟨rfl, rfl⟩

theorem keptResults_eq_nil {outcomes : List (JobOutcome α)} {n : Nat} (hlength : outcomes.length = 2 * n) :
    keptResults outcomes n = [] ↔ ∀ i < n, failsAt outcomes i = true := by
  unfold keptResults
  rw [List.filterMap_eq_nil_iff]
  constructor
  · intro h i hi
    rw [failsAt_eq hlength hi, h i (List.mem_range.2 hi)]
    rfl
  · intro h i hi
    have hi' := List.mem_range.1 hi
    rw [← Option.isNone_iff_eq_none, ← failsAt_eq hlength hi']
    exact h i hi'

theorem mem_of_keptResults {outcomes : List (JobOutcome α)} {n : Nat} {w : StoredReport α × StoredReport α}
    (h : w ∈ keptResults outcomes n) : .ok w.1 ∈ outcomes ∧ .ok w.2 ∈ outcomes := by
  obtain ⟨i, -, hw⟩ := List.mem_filterMap.1 h
  unfold resultsAt at hw
  split at hw
  · rename_i train test htrain htest
    cases hw
    exact ⟨List.mem_of_getElem? htrain, List.mem_of_getElem? htest⟩
  · cases hw

end

end Evaluation

/-! ## Scores by objective -/

namespace Fold

section

variable {α : Type} [Scalar α]

/-- The field of a score. -/
def field (name : String) (x : α) : Key α × Value α := (.text name, .real x)

/-- The scores of all objectives, in order. -/
def row (v : String → α) : Object α := Objective.names.map fun name => field name (v name)

theorem get?_real (v : String → α) {name : String} : ∀ {names : List String}, name ∈ names →
    Object.get? (names.map fun n => field n (v n)) name = some (.real (v name))
  | first :: rest, h => by
    have hsame : (field first (v first)).1.same (.text name) = true ↔ first = name :=
      Object.same_text.trans ⟨Key.text.inj, congrArg Key.text⟩
    rw [List.map_cons, Object.get?_cons]
    by_cases hfirst : first = name
    · rw [if_pos (hsame.2 hfirst), hfirst]
      rfl
    · rw [if_neg fun h => hfirst (hsame.1 h)]
      exact get?_real v ((List.mem_cons.1 h).resolve_left (Ne.symm hfirst))

theorem scoreOf_row (v : String → α) {name : String} (h : name ∈ Objective.names) :
    scoreOf (row v) name = .ok (v name) := by
  unfold scoreOf row
  rw [get?_real v h]
  rfl

/-- Pairs of rows have the scores of each objective. -/
theorem pairs_row (u v : String → α) : ∀ names : List String, (∀ name ∈ names, name ∈ Objective.names) →
    Degradation.pairs (names.map fun n => field n (u n)) (row v) =
      .ok (names.map fun name => ⟨name, u name, v name⟩)
  | [], _ => rfl
  | first :: rest, h => by
    have hrest := pairs_row u v rest fun name hname => h name (List.mem_cons_of_mem first hname)
    unfold Degradation.pairs at hrest ⊢
    have hfirst : Object.find? (row v) (.text first) = some (.real (v first)) :=
      get?_real v (h first List.mem_cons_self)
    rw [List.map_cons, List.filterMapM_cons, hrest]
    dsimp only [field]
    rw [hfirst]
    rfl

theorem degradation_row (u v : String → α) : ∃ x, Degradation.ofScores (row u) (row v) = .ok x := by
  unfold Degradation.ofScores
  rw [show Degradation.pairs (row u) (row v) = _ from pairs_row u v _ fun _ h => h]
  exact ⟨_, rfl⟩

/-- The mean score of each objective over some runs, given the scores of a run. -/
def meanOver {ρ : Type} (x : ρ → String → α) (rs : List ρ) : Object α :=
  row fun name => definedMean (rs.map fun r => x r name)

theorem meanScore_rows {ρ : Type} (x : ρ → String → α) (rs : List ρ) {name : String} (h : name ∈ Objective.names) :
    meanScore (rs.map fun r => row (x r)) name = .ok (definedMean (rs.map fun r => x r name)) := by
  have hscores : (rs.map fun r => row (x r)).mapM (fun r => scoreOf r name) = .ok (rs.map fun r => x r name) := by
    rw [List.mapM_map]
    exact mapM_ok fun r _ => scoreOf_row (x r) h
  unfold meanScore
  rw [hscores]
  rfl

theorem meanScores_rows {ρ : Type} (x : ρ → String → α) {rs : List ρ} (h : rs ≠ []) :
    meanScores (rs.map fun r => row (x r)) = .ok (meanOver x rs) := by
  have hfield : ∀ name ∈ Objective.names, (meanScore (rs.map fun r => row (x r)) name >>= fun m => .ok (field name m)) =
      .ok (field name (definedMean (rs.map fun r => x r name))) := by
    intro name hname
    rw [meanScore_rows x rs hname]
    rfl
  unfold meanScores
  rw [if_neg (by simpa using h)]
  exact mapM_ok hfield

/-- The scores of both runs of windows, given the scores of a run. -/
def rowsOf {ρ : Type} (x : ρ → String → α) (kept : List (ρ × ρ)) : List (RangeScores α) :=
  (kept.map fun w => [⟨.train, row (x w.1)⟩, ⟨.test, row (x w.2)⟩]).flatten

omit [Scalar α] in
theorem rowsOf_phase {ρ : Type} (x : ρ → String → α) (kept : List (ρ × ρ)) (p : Phase) :
    ((rowsOf x kept).filter (·.phase = p)).map (·.scores) =
      (kept.map (match p with | .train => Prod.fst | .test => Prod.snd)).map fun r => row (x r) := by
  induction kept with
  | nil => rfl
  | cons w kept ih =>
    have hcons : rowsOf x (w :: kept) = [⟨.train, row (x w.1)⟩, ⟨.test, row (x w.2)⟩] ++ rowsOf x kept := rfl
    rw [hcons, List.filter_append, List.map_append, ih]
    cases p <;> rfl

/-- The training runs are averaged for themselves, and so are the test runs. -/
theorem aggregate_rows {ρ : Type} (x : ρ → String → α) {kept : List (ρ × ρ)} (h : kept ≠ []) :
    aggregate (rowsOf x kept) = .ok (meanOver x (kept.map Prod.fst), meanOver x (kept.map Prod.snd)) := by
  unfold aggregate
  dsimp only
  rw [rowsOf_phase, rowsOf_phase]
  dsimp only
  rw [meanScores_rows x (by simpa using h), meanScores_rows x (by simpa using h)]
  rfl

end

/-- Exact scores are all defined, and their mean is their sum by their number. -/
theorem definedMean_exact [ExactArithmetic] {xs : List ℚ} (h : xs ≠ []) : definedMean xs = xs.sum / xs.length := by
  have hdefined : ∀ x : ℚ, Scalar.isUndefined x = false := fun x => by
    unfold Scalar.isUndefined
    rw [beq_self_eq_true]
    rfl
  unfold definedMean
  simp only [hdefined, Bool.not_false, List.filter_true]
  rw [if_neg fun hnil => h (List.eq_nil_of_length_eq_zero hnil), Sample.sum_exact]
  simp only [Bool.false_eq_true, if_false, List.map_id']
  rfl

end Fold

/-! ## Evaluations -/

namespace Evaluation

section

variable {α : Type} [Scalar α]

/-- A run has scores: its statistics are numbers, and these are what the objectives read of them. -/
def Scored (x : StoredReport α → String → α) (o : JobOutcome α) : Prop :=
  ∀ r, o = .ok r → Fold.scores r.metrics = .ok (Fold.row (x r))

omit [Scalar α] in
theorem lift_bind {β γ : Type} (y : β) (f : β → Except (Fault α) γ) :
    (liftM (Except.ok y : Except (ValueFault α) β) : Except (Fault α) β) >>= f = f y := rfl

theorem mapM_windowScores {x : StoredReport α → String → α} {kept : List (StoredReport α × StoredReport α)}
    (h : ∀ w ∈ kept, Scored x (.ok w.1) ∧ Scored x (.ok w.2)) :
    kept.mapM windowScores = .ok (kept.map fun w => [⟨.train, Fold.row (x w.1)⟩, ⟨.test, Fold.row (x w.2)⟩]) := by
  refine mapM_ok fun w hw => ?_
  obtain ⟨htrain, htest⟩ := h w hw
  unfold windowScores
  rw [htrain _ rfl, htest _ rfl]
  rfl

theorem solution_none (id : String) (a : Assignment α) {n : Nat} {outcomes : List (JobOutcome α)}
    (hlength : outcomes.length = 2 * n) (h : keptResults outcomes n = []) :
    ∃ reason, solution id a outcomes = .error (.allWindowsFailed id reason) := by
  obtain ⟨hkept, -⟩ := split_eq hlength
  unfold solution
  dsimp only
  rw [hkept, h]
  exact ⟨_, rfl⟩

theorem solution_some (id : String) (a : Assignment α) {n : Nat} {outcomes : List (JobOutcome α)}
    {x : StoredReport α → String → α} (hlength : outcomes.length = 2 * n) (hscored : ∀ o ∈ outcomes, Scored x o)
    (h : keptResults outcomes n ≠ []) :
    ∃ s, solution id a outcomes = .ok s ∧ s.id = id ∧ s.assignment = a ∧ s.error = none ∧
      s.windowsFailed = ((List.range n).countP (failsAt outcomes) : Nat) ∧
      s.inside = Fold.meanOver x ((keptResults outcomes n).map Prod.fst) ∧
      s.outside = Fold.meanOver x ((keptResults outcomes n).map Prod.snd) ∧
      Degradation.ofScores s.inside s.outside = .ok s.degradation := by
  obtain ⟨hkept, hfailed⟩ := split_eq hlength
  have hresults : ∀ w ∈ keptResults outcomes n, Scored x (.ok w.1) ∧ Scored x (.ok w.2) := fun w hw =>
    ⟨hscored _ (mem_of_keptResults hw).1, hscored _ (mem_of_keptResults hw).2⟩
  have hrows := mapM_windowScores hresults
  have hmeans : Fold.aggregate (List.flatten _) = _ := Fold.aggregate_rows x h
  obtain ⟨d, hd⟩ : ∃ d, Degradation.ofScores (Fold.meanOver x ((keptResults outcomes n).map Prod.fst))
      (Fold.meanOver x ((keptResults outcomes n).map Prod.snd)) = .ok d := Fold.degradation_row _ _
  refine ⟨⟨id, a, _, _, d, false, none, _⟩, ?_, rfl, rfl, rfl, rfl, rfl, rfl, hd⟩
  unfold solution
  dsimp only
  rw [hkept, hfailed, if_neg (by simpa using h), hrows, lift_bind, hmeans, lift_bind]
  dsimp only
  rw [hd, lift_bind]
  rfl

/-! ### Jobs -/

/-- The jobs are two for each window, training before test. -/
theorem jobs_at (e : Evaluation α) (a : Assignment α) : ∀ {ws : List Window} {found : List (List (Job α))},
    ws.mapM (e.jobsOf a) = .ok found → found.flatten.length = 2 * ws.length ∧
      ∀ i w, ws[i]? = some w → ∃ train test, found.flatten[2 * i]? = some train ∧
        found.flatten[2 * i + 1]? = some test ∧ e.jobFor a w.start w.split = .ok train ∧
        e.jobFor a w.split w.stop = .ok test
  | [], found, h => by
    cases h
    exact ⟨rfl, nofun⟩
  | w :: ws, found, h => by
    rw [List.mapM_cons] at h
    obtain ⟨two, htwo, h⟩ := bind_ok h
    obtain ⟨more, hmore, h⟩ := bind_ok h
    obtain ⟨train, htrain, htwo⟩ := bind_ok htwo
    obtain ⟨test, htest, htwo⟩ := bind_ok htwo
    cases htwo
    cases h
    obtain ⟨hlength, hrest⟩ := jobs_at e a hmore
    rw [List.flatten_cons]
    have hcount : ([train, test] ++ more.flatten).length = 2 * (w :: ws).length := by
      rw [List.length_append, hlength]
      simp only [List.length_cons, List.length_nil]
      omega
    refine ⟨hcount, fun i w' hi => ?_⟩
    cases i with
    | zero =>
      cases hi
      exact ⟨train, test, rfl, rfl, htrain, htest⟩
    | succ i => exact hrest i w' hi

/-- An evaluation gives what the outcomes of its jobs make of it. -/
theorem run_eq {π : Type} {e : Evaluation α} {a : Assignment α} {jobs : List (Job α)} (hjobs : e.jobs a = .ok jobs)
    (plan : SchedulerPlan α) (pool : Pool π α) (id : String) {st st' : Scheduler α × π} {outcomes : List (JobOutcome α)}
    (hbatch : Scheduler.runBatch plan pool jobs st = (outcomes, st')) :
    e.run plan pool id a st = (solution id a outcomes, st') := by
  unfold run
  rw [hjobs]
  dsimp only
  rw [Batch.bind_run, hbatch]
  rfl

end

/-! ### Exact means -/

section

variable [ExactArithmetic]

/-- Scores that are the exact means over some runs, objective by objective. Each mean lies between the least and the
greatest score that contributes to it. -/
structure Averages {ρ : Type} (x : ρ → String → ℚ) (rs : List ρ) (scores : Object ℚ) : Prop where
  means : scores = Fold.row fun name => (rs.map fun r => x r name).sum / rs.length
  between : ∀ name ∈ Objective.names, ∃ m, Object.get? scores name = some (.real m) ∧
    (∃ r ∈ rs, (∀ q ∈ rs, x r name ≤ x q name) ∧ x r name ≤ m) ∧
    ∃ r ∈ rs, (∀ q ∈ rs, x q name ≤ x r name) ∧ m ≤ x r name

theorem averages_meanOver {ρ : Type} (x : ρ → String → ℚ) {rs : List ρ} (h : rs ≠ []) :
    Averages x rs (Fold.meanOver x rs) := by
  have hmean : ∀ name, Fold.definedMean (rs.map fun r => x r name) = (rs.map fun r => x r name).sum / rs.length := by
    intro name
    rw [Fold.definedMean_exact (by simpa using h), List.length_map]
  have hmeans : Fold.meanOver x rs = Fold.row fun name => (rs.map fun r => x r name).sum / rs.length := by
    unfold Fold.meanOver
    simp only [hmean]
  refine ⟨hmeans, fun name hname => ?_⟩
  have hget : Object.get? (Fold.meanOver x rs) name = some (.real ((rs.map fun r => x r name).sum / rs.length)) := by
    rw [hmeans]
    exact Fold.get?_real _ hname
  have hne : (rs.map fun r => x r name) ≠ [] := by simpa using h
  obtain ⟨least, hleast, greatest, hgreatest, hall, hlow, hhigh⟩ := Sample.mean_between hne
  obtain ⟨r, hr, rfl⟩ := List.mem_map.1 hleast
  obtain ⟨r', hr', rfl⟩ := List.mem_map.1 hgreatest
  rw [List.length_map] at hlow hhigh
  exact ⟨_, hget, ⟨r, hr, fun q hq => (hall _ (List.mem_map_of_mem hq)).1, hlow⟩,
    ⟨r', hr', fun q hq => (hall _ (List.mem_map_of_mem hq)).2, hhigh⟩⟩

/-- What the outcomes of the runs over the windows make of an assignment, given the scores of a run. -/
structure Folded (n : Nat) (id : String) (a : Assignment ℚ) (x : StoredReport ℚ → String → ℚ)
    (outcomes : List (JobOutcome ℚ)) (result : Except (Fault ℚ) (Solution ℚ)) : Prop where
  fails : (∃ f, result = .error f ∧ f.kind = .optimization) ↔ ∀ i < n, failsAt outcomes i = true
  gives : (∃ i < n, failsAt outcomes i = false) → ∃ s, result = .ok s ∧ s.id = id ∧ s.assignment = a ∧ s.error = none ∧
    s.windowsFailed = ((List.range n).countP (failsAt outcomes) : Nat) ∧
    Averages x ((keptResults outcomes n).map Prod.fst) s.inside ∧
    Averages x ((keptResults outcomes n).map Prod.snd) s.outside ∧
    Degradation.ofScores s.inside s.outside = .ok s.degradation

theorem solution_folded (id : String) (a : Assignment ℚ) {n : Nat} {outcomes : List (JobOutcome ℚ)}
    {x : StoredReport ℚ → String → ℚ} (hlength : outcomes.length = 2 * n) (hscored : ∀ o ∈ outcomes, Scored x o) :
    Folded n id a x outcomes (solution id a outcomes) := by
  by_cases hkept : keptResults outcomes n = []
  · have hall := (keptResults_eq_nil hlength).1 hkept
    obtain ⟨reason, hresult⟩ := solution_none id a hlength hkept
    refine ⟨iff_of_true ⟨_, hresult, rfl⟩ hall, ?_⟩
    rintro ⟨i, hi, hok⟩
    rw [hall i hi] at hok
    cases hok
  · obtain ⟨s, hresult, hid, ha, herror, hfailed, hinside, houtside, hdegradation⟩ :=
      solution_some id a hlength hscored hkept
    refine ⟨iff_of_false ?_ fun hall => hkept ((keptResults_eq_nil hlength).2 hall), fun _ => ?_⟩
    · rintro ⟨f, hf, -⟩
      rw [hresult] at hf
      cases hf
    · exact ⟨s, hresult, hid, ha, herror, hfailed, hinside ▸ averages_meanOver x (by simpa using hkept),
        houtside ▸ averages_meanOver x (by simpa using hkept), hdegradation⟩

/-- The outcomes of the jobs of an assignment, in their order, belong to the windows two by two. The evaluation fails
just when each window has a run that failed; otherwise its scores are the exact means over the windows that have none.
This holds of any outcomes, and the evaluation through a scheduler is what the outcomes of its batch make of it. -/
theorem evaluation_folds {π : Type} (e : Evaluation ℚ) (id : String) (a : Assignment ℚ) {jobs : List (Job ℚ)}
    (hjobs : e.jobs a = .ok jobs) {outcomes : List (JobOutcome ℚ)} (hlength : outcomes.length = 2 * e.windows.length)
    {x : StoredReport ℚ → String → ℚ} (hscored : ∀ o ∈ outcomes, Scored x o) :
    jobs.length = 2 * e.windows.length ∧
    (∀ i w, e.windows[i]? = some w → ∃ train test, jobs[2 * i]? = some train ∧ jobs[2 * i + 1]? = some test ∧
      e.jobFor a w.start w.split = .ok train ∧ e.jobFor a w.split w.stop = .ok test) ∧
    Folded e.windows.length id a x outcomes (solution id a outcomes) ∧
    ∀ (plan : SchedulerPlan ℚ) (pool : Pool π ℚ) (st st' : Scheduler ℚ × π),
      Scheduler.runBatch plan pool jobs st = (outcomes, st') →
        e.run plan pool id a st = (solution id a outcomes, st') := by
  obtain ⟨found, hfound, h⟩ := bind_ok hjobs
  cases h
  obtain ⟨hcount, hat⟩ := jobs_at e a hfound
  exact ⟨hcount, hat, solution_folded id a hlength hscored,
    fun plan pool _ _ hbatch => run_eq hjobs plan pool id hbatch⟩

end

section

local instance openPartsOfFolds : ExactArithmetic := Inhabited.default

/-- A result with one score for all objectives but the share of wins; there were no trades. -/
def resultWith (score : ℚ) : StoredReport ℚ :=
  { metrics := { sharpeRatio := .real score, totalReturn := .real score, maxDrawdown := .real score
                 winTrades := .num (.whole 0), totalTrades := .num (.whole 0), totalGas := .real score
                 totalFees := .real score, sortinoRatio := .null, calmarRatio := .null, volatility := .null
                 averageReturn := .null, winRate := .null }
    curve := [], trades := [], skipped := 0 }

/-- The scores of such a result. -/
def scoreWith (r : StoredReport ℚ) (name : String) : ℚ := if name = "win_rate" then 0.0 else r.metrics.sharpeRatio.realD

/-- Windows of three nanoseconds, one after the other. -/
def threeWindows : Evaluation ℚ :=
  { blocks := [], config := { start := .known 0, stop := .known 5, capital := .whole 1000, interval := .whole 1
                              baseCurrency := "USDC", holdings := [], granularity := .null }
    windows := [⟨0, 2, 3⟩, ⟨1, 3, 4⟩, ⟨2, 4, 5⟩] }

/-- The second window loses its training run. -/
def secondFails : List (JobOutcome ℚ) :=
  [.ok (resultWith 1), .ok (resultWith 3), .error (Failure.classify "network down" none .null), .ok (resultWith 9),
    .ok (resultWith 2), .ok (resultWith 4)]

/-- The scores are those of the first and the third window. -/
theorem secondFails_folded : ∃ jobs, threeWindows.jobs [] = .ok jobs ∧ secondFails.length = 2 * 3 ∧
    (∀ o ∈ secondFails, Scored scoreWith o) ∧
    Folded 3 "solution-0" [] scoreWith secondFails (solution "solution-0" [] secondFails) := by
  obtain ⟨jobs, hjobs⟩ : ∃ jobs, threeWindows.jobs [] = .ok jobs := ⟨_, rfl⟩
  have hscored : ∀ o ∈ secondFails, Scored scoreWith o := by
    have hresult : ∀ score, Scored scoreWith (.ok (resultWith score)) := by
      rintro score _ ⟨⟩
      rfl
    simp only [secondFails, List.forall_mem_cons]
    exact ⟨hresult 1, hresult 3, nofun, hresult 9, hresult 2, hresult 4, nofun⟩
  exact ⟨jobs, hjobs, rfl, hscored,
    (evaluation_folds (π := Unit) threeWindows "solution-0" [] hjobs rfl hscored).2.2.1⟩

end

end Evaluation

end StrategyLab
