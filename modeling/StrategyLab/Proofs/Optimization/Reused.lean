/-
Run directories that are used again. Every run replaces the files of its directory, but to the log it only adds:
when runs are stored in one directory, one after the other, and some of them may fail, the log has the solutions of
all of them. The directory describes the last one just when those before it have left no solution
(`directory_describes_iff`).
-/
import StrategyLab.Proofs.Optimization.Numbered
import StrategyLab.Proofs.Optimization.Stored

namespace StrategyLab

open Stage RunDirectory

variable {τ σ α : Type} [Scalar α]

/-! ## What a directory describes -/

/-- The records of the solutions that a result lists. -/
def listedSolutions (result : Value α) : List (Value α) := ((recordField result "solutions").map Value.itemsD).getD []

/-- A directory describes a run with a result: the log has the solutions that the file of the result lists, but for
their marks, no name twice, and as many as the checkpoint tells. -/
structure Describes (d : Directory) (r : SearchResult α) : Prop where
  result : load d resultFile = .ok (some r.toValue.toRecord)
  listed : (loadSolutions d).map unmarkedField = (listedSolutions r.toValue.toRecord).map unmarkedField
  once : (recordNames (loadSolutions (α := α) d)).Nodup
  counted : ∃ v : Value α, loadCheckpoint d = some v ∧
    recordField v "iteration" = some (.whole (loadSolutions (α := α) d).length)

theorem listedSolutions_result (r : SearchResult α) :
    listedSolutions r.toValue.toRecord = r.solutions.map fun s => s.toValue.toRecord := by
  have hlisted : listedSolutions r.toValue.toRecord = Value.toRecordItems (r.solutions.map Solution.toValue) := rfl
  rw [hlisted, Value.toRecordItems_eq, List.map_map]
  rfl

/-! ## One run -/

section

variable (S : Surroundings (StateM τ) σ α) (watch : Watcher τ α)

variable {S} in
theorem journaled_names (hS : S.Names) : (S.journaled watch).Names := fun e id a w s h => hS e id a w.inner s h

/-- Whoever follows a run, the solutions are left alone. -/
theorem journaled_follow (p : Progress α) (o : Optimizer α) (w : Journal τ α) :
    Leads ((S.journaled watch).follow p) o w (fun _ o' _ => o'.solutions = o.solutions ∧ o'.iteration = o.iteration)
      fun _ _ _ => True := by
  refine .get_bind (.outside_bind (.attempting_bind (fun _ _ _ => trivial) fun asked w' _ => ?_))
  cases asked with
  | true => exact ⟨rfl, rfl⟩
  | false => exact ⟨rfl, rfl⟩

end

namespace Optimizer

variable {S : Surroundings (StateM (Journal τ α)) σ α} {d : Directory} {c : SearchConfig α}

/-- A run that has a budget comes to a result with numbered solutions, and there is at least one. -/
theorem optimize_concludes [RandomSource σ α] (hstores : S.Stores d) (hnames : S.Names)
    (hfollow : ∀ p o w, Leads (S.follow p) o w (fun _ o' _ => o'.solutions = o.solutions ∧ o'.iteration = o.iteration)
      fun _ _ _ => True) (hbudget : 0 < c.maxIterations) (blocks : List (Block α)) (o : Optimizer α) (inner : τ) :
    Leads (optimize S blocks c) o ⟨inner, d, []⟩ (fun r _ w' => Concluded d r w' ∧ 0 < r.iterations ∧
      r.solutions.map (·.id) = (List.range r.iterations).map solutionName) fun _ _ w' => Filed d w' := by
  refine optimize_leads (J := fun o w => (Kept d o w ∧ Numbered o) ∧ o.iteration = 0 ∧ o.stopRequested = false)
    (I := fun o w => (Kept d o w ∧ Numbered o) ∧ 0 < o.iteration) ?_ (fun e o w h => ?_) fun o w h => ?_
  · refine ((begin_stores hstores c blocks o inner).and (begin_fresh S blocks c o _)).mono ?_ fun _ _ _ h => h.1
    rintro - o' w' ⟨hkept, time, rfl⟩
    exact ⟨⟨hkept, rfl⟩, rfl, rfl⟩
  · obtain ⟨h, hfresh, hgoes⟩ := h
    have hstep : ∀ a o w, Kept d o w ∧ Numbered o → Leads (step S e c a) o w
        (fun _ o' w' => (Kept d o' w' ∧ Numbered o') ∧ 0 < o'.iteration) fun _ _ w' => Filed d w' := by
      rintro a o w ⟨hkept, hnumbered⟩
      refine ((step_stores hstores e c a o w hkept).and (step_numbered hnames hfollow e c a hnumbered w)).mono ?_ fun _ _ _ h => h.1
      rintro - o' w' ⟨hkept, hnumbered, hsome⟩
      exact ⟨⟨hkept, hnumbered⟩, hsome⟩
    exact search_reaches (fun _ _ h => h.1.toFiled) (fun _ _ h => h.1.1.toFiled) hstep (fun a o w h => hstep a o w h.1) h hgoes
      (hfresh ▸ hbudget)
  · obtain ⟨⟨hkept, hnumbered⟩, hsome⟩ := h
    refine (finish_concludes hstores c o w hkept).mono ?_ fun _ _ _ h => h
    rintro r - w' ⟨hconcluded, hiterations, hids⟩
    exact ⟨hconcluded, hiterations ▸ hsome, by rw [hids, hiterations, hnumbered]⟩

end Optimizer

/-- A run that is to be stored, with everything that it depends on but the directory. -/
structure StoredRun (τ σ α : Type) where
  surroundings : Surroundings (StateM τ) σ α
  watch : Watcher τ α
  blocks : List (Block α)
  config : SearchConfig α
  optimizer : Optimizer α
  inner : τ

namespace StoredRun

variable [RandomSource σ α]

/-- The run in a directory. -/
def outcome (x : StoredRun τ σ α) (d : Directory) : (Except (Fault α) (SearchResult α) × Optimizer α) × Journal τ α :=
  ((Optimizer.optimize (x.surroundings.journaled x.watch) x.blocks x.config).run.run x.optimizer).run ⟨x.inner, d, []⟩

/-- The directory after it, however it ends. -/
def leaves (x : StoredRun τ σ α) (d : Directory) : Directory := (x.outcome d).2.directory

/-- The records that it adds to the log. -/
def stored (x : StoredRun τ σ α) (d : Directory) : List (Value α) := Deposit.solutions (x.outcome d).2.deposits

variable (x : StoredRun τ σ α) {d : Directory} {deposits : List (Deposit α)}

/-- A directory holds what a run put into it, and what was there before. -/
theorem holds (hα : Json.Readable α) (h : Holds d deposits) : Holds (x.leaves d) (deposits ++ (x.outcome d).2.deposits) := by
  have hstores := journaled_stores x.surroundings x.watch d
  have hfiled : Filed d (x.outcome d).2 :=
    Optimizer.optimize_keeps (fun _ _ h => h.toFiled) (fun e a => Optimizer.step_stores hstores e x.config a)
      (Optimizer.begin_stores hstores x.config x.blocks x.optimizer x.inner) (Optimizer.finish_stores hstores x.config)
  exact h.puts hα hfiled.directory

variable {x} {r : SearchResult α}

theorem concluded (hnames : x.surroundings.Names) (hbudget : 0 < x.config.maxIterations) (hends : (x.outcome d).1.1 = .ok r) :
    Concluded d r (x.outcome d).2 ∧ 0 < r.iterations ∧
      r.solutions.map (·.id) = (List.range r.iterations).map solutionName := by
  have hleads := Optimizer.optimize_concludes (journaled_stores x.surroundings x.watch d) (journaled_names x.watch hnames)
    (journaled_follow x.surroundings x.watch) hbudget x.blocks x.optimizer x.inner
  exact hleads.of_ok hends

end StoredRun

/-! ## What a run adds to a directory -/

/-- A run with a result has led from one directory to another: it has put its result there, its solutions are added
to the log, named after their places, and the checkpoint tells how many they are. -/
structure Adds (d d' : Directory) (own : List (Value α)) (r : SearchResult α) : Prop where
  result : load d' resultFile = .ok (some r.toValue.toRecord)
  solutions : loadSolutions d' = loadSolutions d ++ own
  listed : own.map unmarkedField = (listedSolutions r.toValue.toRecord).map unmarkedField
  names : recordNames own = (List.range r.iterations).map fun i => some (.text (solutionName i))
  count : own.length = r.iterations
  positive : 0 < r.iterations
  told : ∃ v : Value α, loadCheckpoint d' = some v ∧ recordField v "iteration" = some (.whole r.iterations)

/-- The directory describes the run just when there was nothing in the log before. -/
theorem Adds.describes_iff {d d' : Directory} {own : List (Value α)} {r : SearchResult α} (h : Adds d d' own r) :
    Describes d' r ↔ loadSolutions (α := α) d = [] := by
  constructor
  · intro hdescribes
    have hlengths := congrArg List.length (hdescribes.listed.trans h.listed.symm)
    rw [List.length_map, List.length_map, h.solutions, List.length_append] at hlengths
    exact List.length_eq_zero_iff.1 (by omega)
  · intro hempty
    have hown : loadSolutions d' = own := by rw [h.solutions, hempty, List.nil_append]
    refine ⟨h.result, by rw [hown, h.listed], ?_, by rw [hown, h.count]; exact h.told⟩
    rw [hown, h.names]
    refine List.nodup_range.map fun i j hsame => solutionName_injective ?_
    injection hsame with hsame
    injection hsame

namespace StoredRun

variable [RandomSource σ α]

theorem adds (hα : Json.Readable α) {x : StoredRun τ σ α} {d : Directory} {deposits : List (Deposit α)} (h : Holds d deposits)
    (hnames : x.surroundings.Names) (hbudget : 0 < x.config.maxIterations) {r : SearchResult α}
    (hends : (x.outcome d).1.1 = .ok r) : Adds d (x.leaves d) (x.stored d) r := by
  obtain ⟨hconcluded, hpositive, hids⟩ := concluded hnames hbudget hends
  have hafter := x.holds hα h
  have hrecords : (x.stored d).map unmarkedField = r.solutions.map fun s => unmarkedField s.toValue.toRecord := hconcluded.records
  refine ⟨?_, ?_, ?_, ?_, hconcluded.count, hpositive, ?_⟩
  · obtain ⟨before, hlast⟩ := hconcluded.last
    have hputs := hconcluded.directory
    rw [hlast, List.foldlM_append] at hputs
    obtain ⟨d₁, -, hput⟩ := bind_ok hputs
    obtain ⟨d₂, hwrite, hdone⟩ := bind_ok hput
    cases hdone
    exact load_write hα hwrite
  · rw [hafter.solutions, h.solutions, Deposit.solutions_append]
    rfl
  · rw [hrecords, listedSolutions_result, List.map_map]
    rfl
  · rw [recordNames_unmarked hrecords, hids, List.map_map]
    rfl
  · obtain ⟨v, hv, hiteration⟩ := hconcluded.told hpositive
    refine ⟨v, ?_, hiteration⟩
    rw [hafter.checkpoint, Deposit.lastCheckpoint_append, hv]
    rfl

/-! ## Several runs -/

/-- The directory after several runs, one after the other. -/
def leftBy (d : Directory) (runs : List (StoredRun τ σ α)) : Directory := runs.foldl (fun d x => x.leaves d) d

/-- The records that they add to the log. -/
def logged : Directory → List (StoredRun τ σ α) → List (Value α)
  | _, [] => []
  | d, x :: rest => x.stored d ++ logged (x.leaves d) rest

/-- A directory holds what the runs put into it, however they ended. -/
theorem holds_all (hα : Json.Readable α) (runs : List (StoredRun τ σ α)) : ∀ {d : Directory} {deposits : List (Deposit α)},
    Holds d deposits → ∃ more, Holds (leftBy d runs) (deposits ++ more) ∧ Deposit.solutions more = logged d runs := by
  induction runs with
  | nil =>
    intro d deposits h
    exact ⟨[], by rwa [List.append_nil], rfl⟩
  | cons x rest ih =>
    intro d deposits h
    obtain ⟨more, hmore, hlogged⟩ := ih (x.holds hα h)
    refine ⟨(x.outcome d).2.deposits ++ more, ?_, ?_⟩
    · rwa [List.append_assoc] at hmore
    · rw [Deposit.solutions_append, hlogged]
      rfl

/-- Runs are stored in one directory, one after the other. One that comes to a result adds its solutions to those that
the earlier ones have left in the log, so that the directory describes it just when they have left none. -/
theorem directory_describes_iff (hα : Json.Readable α) {d₀ : Directory} (hlog : d₀.text? solutionsFile = none)
    (hfile : d₀.text? checkpointFile = none) (earlier : List (StoredRun τ σ α)) (x : StoredRun τ σ α)
    (hnames : x.surroundings.Names) (hbudget : 0 < x.config.maxIterations) {r : SearchResult α}
    (hends : (x.outcome (leftBy d₀ earlier)).1.1 = .ok r) : let d := leftBy d₀ earlier
    Adds d (x.leaves d) (x.stored d) r ∧ loadSolutions d = logged d₀ earlier ∧
      (Describes (x.leaves d) r ↔ logged d₀ earlier = []) := by
  obtain ⟨more, hholds, hmore⟩ := holds_all hα earlier (Holds.new hlog hfile)
  rw [List.nil_append] at hholds
  have hlogged : loadSolutions (leftBy d₀ earlier) = logged d₀ earlier := by rw [hholds.solutions, hmore]
  have hadds := adds hα hholds hnames hbudget hends
  refine ⟨hadds, hlogged, ?_⟩
  rw [hadds.describes_iff, hlogged]

/-! ### A run after a refused one, and a run that is stored twice -/

local instance decimalsOfDirectories : Scalar ℚ := Decimals.scalars

local instance zeroSourceOfDirectories : RandomSource Unit ℚ := ⟨fun s => (0, s), fun _ s => (0, s)⟩

/-- A run of two iterations. -/
def twoEven : StoredRun Unit Unit ℚ :=
  ⟨Optimizer.evenly, Optimizer.stopsAtTwo, Optimizer.swapped, Optimizer.searchFor .genetic 4, Optimizer.idle, ()⟩

/-- A run without a strategy. -/
def withoutStrategy : StoredRun Unit Unit ℚ := { twoEven with blocks := [] }

theorem twoEven_names : twoEven.surroundings.Names := by
  intro e id a w s h
  cases h
  rfl

/-- After a run that was refused the directory describes the one that was not. -/
theorem described_after_refusal : ∃ r : SearchResult ℚ, let d := leftBy [] [withoutStrategy]
    (twoEven.outcome d).1.1 = .ok r ∧ r.iterations = 2 ∧ Describes (twoEven.leaves d) r := by
  have hends : ((twoEven.outcome (leftBy [] [withoutStrategy])).1.1.toOption.map (·.iterations)) = some 2 := by decide +kernel
  have hnothing : (logged [] [withoutStrategy]).length = 0 := by decide +kernel
  obtain ⟨r, hr, hiterations⟩ := ok_of_toOption hends
  exact ⟨r, hr, hiterations, (directory_describes_iff Decimals.readable rfl rfl [withoutStrategy] twoEven twoEven_names (by decide)
    hr).2.2.2 (List.length_eq_zero_iff.1 hnothing)⟩

/-- After two runs the log has the names of both, and the result lists those of the last one. -/
theorem second_run_undescribed : ∃ r r' : SearchResult ℚ, let d := twoEven.leaves []
    (twoEven.outcome []).1.1 = .ok r ∧ (twoEven.outcome d).1.1 = .ok r' ∧
    recordNames (loadSolutions (α := ℚ) (twoEven.leaves d)) =
      ["solution-0", "solution-1", "solution-0", "solution-1"].map (fun id => some (.text id)) ∧
    r'.solutions.map (·.id) = ["solution-0", "solution-1"] ∧ ¬ Describes (twoEven.leaves d) r' := by
  have hends : ((twoEven.outcome []).1.1.toOption.map (·.iterations)) = some 2 := by decide +kernel
  have hends' : ((twoEven.outcome (twoEven.leaves [])).1.1.toOption.map (·.iterations)) = some 2 := by decide +kernel
  obtain ⟨r, hr, htwo⟩ := ok_of_toOption hends
  obtain ⟨r', hr', htwo'⟩ := ok_of_toOption hends'
  have hnew : Holds [] ([] : List (Deposit ℚ)) := Holds.new rfl rfl
  have hfirst := adds Decimals.readable hnew twoEven_names (by decide) hr
  have hsecond := adds Decimals.readable (twoEven.holds Decimals.readable hnew) twoEven_names (by decide) hr'
  have hlog : loadSolutions (α := ℚ) (twoEven.leaves []) = twoEven.stored [] := hfirst.solutions
  have hnames := hfirst.names
  have hnames' := hsecond.names
  rw [htwo] at hnames
  rw [htwo'] at hnames'
  refine ⟨r, r', hr, hr', ?_, ?_, fun hdescribes => ?_⟩
  · rw [hsecond.solutions, hlog, recordNames, List.map_append]
    exact congrArg₂ (· ++ ·) hnames hnames'
  · rw [(concluded twoEven_names (by decide) hr').2.2, htwo']
    decide
  · have hcount := hfirst.count
    rw [← hlog, hsecond.describes_iff.1 hdescribes, htwo] at hcount
    cases hcount

end StoredRun

end StrategyLab
