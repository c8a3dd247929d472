/-
What a run leaves in its directory. After any of the steps in which it is written, the directory holds the
record of the last checkpoint that is complete, and the log at that point is the one of the checkpoint, or has
one record more (`optimize_stored`).
-/
import StrategyLab.Proofs.Store.Log
import StrategyLab.Proofs.Optimization.Budget
import StrategyLab.Proofs.Optimization.Invariant
import StrategyLab.Proofs.Store.Deposit

namespace StrategyLab

open Stage RunDirectory

variable {τ σ α : Type}

/-! ## Runs with a directory -/

/-- A run directory, what has been put into it, and everything else that a run depends on. -/
structure Journal (τ α : Type) where
  inner : τ
  directory : Directory
  deposits : List (Deposit α)

namespace Journal

/-- Something done elsewhere. -/
def within {β : Type} (action : StateM τ β) : StateM (Journal τ α) β := fun w =>
  ((action.run w.inner).1, { w with inner := (action.run w.inner).2 })

/-- Puts something into the directory. -/
def deposit [Scalar α] (x : Deposit α) : StateM (Journal τ α) (Except (Fault α) Unit) := fun w =>
  match x.put w.directory with
  | .ok d => (.ok (), { w with directory := d, deposits := w.deposits ++ [x] })
  | .error cause => (.error (.value cause), w)

/-- Nothing is put into the directory between two points of a run. -/
def Same (w w' : Journal τ α) : Prop := w'.directory = w.directory ∧ w'.deposits = w.deposits

theorem Same.refl (w : Journal τ α) : w.Same w := ⟨rfl, rfl⟩

theorem Same.trans {u v w : Journal τ α} (h : u.Same v) (h' : v.Same w) : u.Same w :=
  ⟨h'.1.trans h.1, h'.2.trans h.2⟩

theorem within_same {β : Type} (action : StateM τ β) (w : Journal τ α) : w.Same ((within action).run w).2 := ⟨rfl, rfl⟩

end Journal

/-- Whoever follows a run sees its progress, the optimizer and the directory, and says whether it is to stop, or
fails. -/
abbrev Watcher (τ α : Type) := Progress α → Optimizer α → Directory → StateM τ (Except (Fault α) Bool)

/-- Surroundings in which a run is stored in a directory, and stopped when the watcher says so. -/
def Surroundings.journaled [Scalar α] (S : Surroundings (StateM τ) σ α) (watch : Watcher τ α) :
    Surroundings (StateM (Journal τ α)) σ α :=
  { source := S.source
    plan := S.plan
    evaluate := fun e id a => Journal.within (S.evaluate e id a)
    now := Journal.within S.now
    hitRate := Journal.within S.hitRate
    active := Journal.within S.active
    fetchReported := Journal.within S.fetchReported
    storeConfig := fun v => Journal.deposit (.config v)
    storeSolution := fun v => Journal.deposit (.solution v)
    storeCheckpoint := fun v => Journal.deposit (.checkpoint v)
    storeResult := fun v => Journal.deposit (.result v)
    follow := fun p => do
      let o ← get
      let w ← Optimizer.outside get
      if ← Optimizer.attempting (Journal.within (watch p o w.directory)) then Optimizer.stop }

/-! ## Checkpoints and solutions -/

variable [Scalar α]

/-- A field of a record. -/
def recordField (v : Value α) (name : String) : Option (Value α) := v.fields?.bind (Object.get? · name)

/-- The names that records of solutions have. -/
def recordNames (records : List (Value α)) : List (Option (Value α)) := records.map (recordField · "id")

/-- The fields of the record of a solution, but for the mark of the best. -/
def unmarkedField (v : Value α) (name : String) : Option (Value α) :=
  if name = "is_pareto_optimal" then none else recordField v name

/-- A checkpoint tells an iteration, a frontier and a best solution; the log is the one of that iteration or has
one record more, and all that are told are among the records up to that iteration. -/
structure Tells (checkpoint : Value α) (records : List (Value α)) (n : Nat) (frontier : List String)
    (best : Option String) : Prop where
  iteration_eq : recordField checkpoint "iteration" = some (.whole n)
  frontier_eq : recordField checkpoint "pareto_frontier" = some (.texts frontier)
  best_eq : recordField checkpoint "best_solution" = some (.ofOption (best.map .text))
  count : records.length = n ∨ records.length = n + 1
  known : ∀ id, id ∈ frontier ∨ best = some id → some (.text id) ∈ recordNames (records.take n)

/-- A checkpoint agrees with the records of a log. -/
def Agrees (checkpoint : Value α) (records : List (Value α)) : Prop :=
  ∃ n frontier best, Tells checkpoint records n frontier best

/-- The last checkpoint among deposits, if there is one, agrees with the solutions among them. -/
def Consistent (deposits : List (Deposit α)) : Prop :=
  ∀ v, Deposit.lastCheckpoint deposits = some v → Agrees v (Deposit.solutions deposits)

omit [Scalar α] in
theorem Value.whole_inj {m n : Int} (h : (Value.whole m : Value α) = .whole n) : m = n := by
  unfold Value.whole at h
  injection h with h
  injection h

section

variable {deposits : List (Deposit α)} {n : Nat}

/-- What is neither a solution nor a checkpoint changes nothing. -/
theorem Consistent.other (h : Consistent deposits) {x : Deposit α} (hsolution : x.solution? = none)
    (hcheckpoint : x.checkpoint? = none) : Consistent (deposits ++ [x]) := by
  intro v hv
  rw [Deposit.lastCheckpoint_concat, hcheckpoint, Option.none_or] at hv
  rw [Deposit.solutions_concat, hsolution, Option.toList_none, List.append_nil]
  exact h v hv

/-- One solution more than iterations. -/
theorem Consistent.solution (h : Consistent deposits) (hcount : (Deposit.solutions deposits).length = n)
    (hlatest : ∀ v, Deposit.lastCheckpoint deposits = some v → recordField v "iteration" = some (.whole n)) (s : Value α) :
    Consistent (deposits ++ [.solution s]) := by
  intro v hv
  have hlast : Deposit.lastCheckpoint deposits = some v := by
    rw [Deposit.lastCheckpoint_concat] at hv
    exact hv
  obtain ⟨m, frontier, best, htells⟩ := h v hlast
  obtain rfl : m = n := by
    have hsame := htells.iteration_eq.symm.trans (hlatest v hlast)
    exact Int.ofNat_inj.1 (Value.whole_inj (Option.some.inj hsame))
  rw [Deposit.solutions_concat]
  refine ⟨m, frontier, best, htells.iteration_eq, htells.frontier_eq, htells.best_eq, .inr ?_, ?_⟩
  · rw [List.length_append, hcount]
    rfl
  · rw [List.take_append_of_le_length (Nat.le_of_eq hcount.symm)]
    exact htells.known

/-- A checkpoint of the present iteration. -/
theorem Consistent.checkpoint {v : Value α} {frontier : List String} {best : Option String}
    (htells : Tells v.toRecord (Deposit.solutions deposits) n frontier best) :
    Consistent (deposits ++ [.checkpoint v]) := by
  intro u hu
  obtain rfl : v.toRecord = u := by
    rw [Deposit.lastCheckpoint_concat] at hu
    exact Option.some.inj hu
  rw [Deposit.solutions_concat]
  refine ⟨n, frontier, best, ?_⟩
  show Tells _ (_ ++ []) _ _ _
  rwa [List.append_nil]

end

/-! ### What is written -/

theorem toRecord_texts (ids : List String) : (Value.texts ids : Value α).toRecord = .texts ids := by
  have hitems : ∀ v ∈ ids.map (Value.text (α := α)), v.IsRecord := by
    intro v hv
    obtain ⟨id, -, rfl⟩ := List.mem_map.1 hv
    exact .text id
  exact (Value.IsRecord.list hitems).toRecord_eq

theorem checkpoint_fields (p : Progress α) (status : Status) (hitRate : α) :
    let v := (p.checkpoint status hitRate).toRecord
    recordField v "iteration" = some (.whole p.iteration) ∧
    recordField v "pareto_frontier" = some (.texts (p.frontier.map (·.id))) ∧
    recordField v "best_solution" = some (.ofOption ((p.best.map (·.id)).map .text)) := by
  have hbest : (Value.ofOption (p.best.map fun s => .text s.id) : Value α).toRecord =
      .ofOption ((p.best.map (·.id)).map .text) := by
    cases p.best <;> rfl
  refine ⟨rfl, ?_, ?_⟩
  · rw [← toRecord_texts]
    rfl
  · rw [← hbest]
    rfl

/-- The mark of a solution stands in one field of its record. -/
theorem unmarkedField_marked (s : Solution α) (isOptimal : Bool) :
    unmarkedField (s.marked isOptimal).toValue.toRecord = unmarkedField s.toValue.toRecord := by
  funext name
  have hrecord : ∀ t : Solution α, recordField t.toValue.toRecord name = Object.get? [(.text "id", .text t.id),
      (.text "parameters", .object (Solution.recordFields t.assignment)),
      (.text "in_sample_scores", .object (Solution.recordFields t.inside)),
      (.text "out_of_sample_scores", .object (Solution.recordFields t.outside)),
      (.text "degradation", Value.finiteOrWord t.degradation), (.text "is_pareto_optimal", .truth t.isOptimal),
      (.text "error", (Value.ofOption t.error).toRecord), (.text "windows_failed", .whole t.windowsFailed)] name := fun _ => rfl
  unfold unmarkedField
  split
  · rfl
  · rename_i hother
    have hmark : ("is_pareto_optimal" == name) = false := beq_eq_false_iff_ne.2 (Ne.symm hother)
    rw [hrecord, hrecord]
    unfold Object.get? Object.find?
    simp only [List.find?_cons, Object.same_texts, hmark, Solution.marked]

/-- The records that solutions have but for their marks, whatever these were when they were written. -/
theorem unmarked_records {solutions found : List (Solution α)} {objectives : List String}
    (h : Frontier.mark solutions objectives = .ok found) :
    (found.map fun s => unmarkedField s.toValue.toRecord) = solutions.map fun s => unmarkedField s.toValue.toRecord := by
  have hmarks : ∀ l : List (Solution α), (l.map fun s => unmarkedField s.toValue.toRecord) =
      (l.map (·.marked false)).map fun s => unmarkedField s.toValue.toRecord := by
    intro l
    rw [List.map_map]
    exact List.map_congr_left fun s _ => (unmarkedField_marked s false).symm
  rw [hmarks, Frontier.unmarked_mark h, ← hmarks]

theorem recordNames_unmarked {records : List (Value α)} {solutions : List (Solution α)}
    (h : records.map unmarkedField = solutions.map fun s => unmarkedField s.toValue.toRecord) :
    recordNames records = (solutions.map (·.id)).map fun id => some (.text id) := by
  have hnames := congrArg (List.map (· "id")) h
  rw [List.map_map, List.map_map] at hnames
  rw [List.map_map]
  exact hnames

/-! ## What a run keeps -/

/-- The directory is the one that the deposits lead to, and they are consistent wherever they are cut. -/
structure Filed (d : Directory) (w : Journal τ α) : Prop where
  directory : w.deposits.foldlM Deposit.put d = .ok w.directory
  sound : ∀ done, done <+: w.deposits → Consistent done

/-- The log has the solutions of the optimizer, but for their marks. -/
structure Logged (d : Directory) (o : Optimizer α) (w : Journal τ α) : Prop extends Filed d w where
  count : (Deposit.solutions w.deposits).length = o.iteration
  records : (Deposit.solutions w.deposits).map unmarkedField = o.solutions.map fun s => unmarkedField s.toValue.toRecord

/-- Between two evaluations the last checkpoint is of the iteration of the optimizer as well; before the first one
there is none. -/
structure Kept (d : Directory) (o : Optimizer α) (w : Journal τ α) : Prop extends Logged d o w where
  latest : ∀ v, Deposit.lastCheckpoint w.deposits = some v → recordField v "iteration" = some (.whole o.iteration)
  told : 0 < o.iteration → (Deposit.lastCheckpoint w.deposits).isSome = true

/-- A run has come to a result: it was put into the directory last, and it has the solutions of the log, but for
their marks, and as many as the last checkpoint tells. -/
structure Concluded (d : Directory) (r : SearchResult α) (w : Journal τ α) : Prop extends Filed d w where
  last : ∃ before, w.deposits = before ++ [.result r.toValue]
  count : (Deposit.solutions w.deposits).length = r.iterations
  records : (Deposit.solutions w.deposits).map unmarkedField = r.solutions.map fun s => unmarkedField s.toValue.toRecord
  told : 0 < r.iterations → ∃ v, Deposit.lastCheckpoint w.deposits = some v ∧
    recordField v "iteration" = some (.whole r.iterations)

variable {d : Directory} {w w' : Journal τ α} {o : Optimizer α}

theorem Filed.same (h : Filed d w) (hsame : w.Same w') : Filed d w' := by
  obtain ⟨hdirectory, hdeposits⟩ := hsame
  exact ⟨by rw [hdeposits, hdirectory, h.directory], by rw [hdeposits]; exact h.sound⟩

theorem Logged.same (h : Logged d o w) (hsame : w.Same w') : Logged d o w' :=
  ⟨h.toFiled.same hsame, by rw [hsame.2, h.count], by rw [hsame.2, h.records]⟩

theorem Logged.names (h : Logged d o w) :
    recordNames (Deposit.solutions w.deposits) = (o.solutions.map (·.id)).map fun id => some (.text id) :=
  recordNames_unmarked h.records

theorem Kept.same (h : Kept d o w) (hsame : w.Same w') : Kept d o w' :=
  ⟨h.toLogged.same hsame, by rw [hsame.2]; exact h.latest, by rw [hsame.2]; exact h.told⟩

theorem Filed.new (inner : τ) (d : Directory) : Filed d (⟨inner, d, []⟩ : Journal τ α) := by
  refine ⟨rfl, fun done hdone v hv => ?_⟩
  obtain rfl := List.prefix_nil.1 hdone
  cases hv

/-- What is put into the directory is deposited, unless it fails. -/
theorem Filed.deposit (h : Filed d w) {x : Deposit α} (hx : Consistent (w.deposits ++ [x]))
    {r : Except (Fault α) Unit} (hrun : (Journal.deposit x).run w = (r, w')) :
    Filed d w' ∧ ∀ u, r = .ok u → w'.deposits = w.deposits ++ [x] := by
  change (match x.put w.directory with
    | .ok d => ((.ok (), { w with directory := d, deposits := w.deposits ++ [x] }) : Except (Fault α) Unit × Journal τ α)
    | .error cause => (.error (.value cause), w)) = (r, w') at hrun
  cases hput : x.put w.directory with
  | error cause =>
    rw [hput] at hrun
    cases hrun
    exact ⟨h, nofun⟩
  | ok d' =>
    rw [hput] at hrun
    cases hrun
    refine ⟨⟨?_, fun done hdone => ?_⟩, fun _ _ => rfl⟩
    · show (w.deposits ++ [x]).foldlM Deposit.put d = .ok d'
      rw [List.foldlM_append, h.directory]
      show [x].foldlM Deposit.put w.directory = _
      rw [List.foldlM_cons, hput]
      rfl
    · rcases List.prefix_concat_iff.1 hdone with rfl | hdone
      · exact hx
      · exact h.sound done hdone

/-- What a checkpoint tells, if the log has the solutions of the optimizer. -/
theorem Logged.tells (h : Logged d o w) {c : SearchConfig α} {p : Progress α} {found : List (Solution α)}
    (hp : p.Tells c o found) (status : Status) (hitRate : α) : Tells (p.checkpoint status hitRate).toRecord
      (Deposit.solutions w.deposits) o.iteration (p.frontier.map (·.id)) (p.best.map (·.id)) := by
  obtain ⟨hiteration, hfrontier, hbest⟩ := checkpoint_fields p status hitRate
  rw [hp.iteration] at hiteration
  have hmember : ∀ s ∈ p.frontier, s.id ∈ o.solutions.map (·.id) := by
    intro s hs
    rw [hp.frontier] at hs
    rw [← Frontier.mark_names hp.marked]
    exact List.mem_map_of_mem (List.mem_filter.1 hs).1
  refine ⟨hiteration, hfrontier, hbest, .inl h.count, fun id hid => ?_⟩
  rw [List.take_of_length_le (Nat.le_of_eq h.count), h.names]
  refine List.mem_map_of_mem ?_
  rcases hid with hid | hid
  · obtain ⟨s, hs, rfl⟩ := List.mem_map.1 hid
    exact hmember s hs
  · obtain ⟨s, hs, rfl⟩ := Option.map_eq_some_iff.1 hid
    exact hmember s (Progress.bestOf_mem (hs ▸ hp.best))

/-- A solution is put into the log: it has one record more than the last checkpoint tells. -/
theorem Kept.solution (h : Kept d o w) (s : Solution α) {r : Except (Fault α) Unit}
    (hrun : (Journal.deposit (.solution s.toValue)).run w = (r, w')) :
    Filed d w' ∧ ∀ u, r = .ok u → Logged d { o with solutions := o.solutions ++ [s], iteration := o.iteration + 1 } w' := by
  obtain ⟨hfiled, hdeposits⟩ := h.deposit ((h.sound _ List.prefix_rfl).solution h.count h.latest s.toValue) hrun
  refine ⟨hfiled, fun u hu => ⟨hfiled, ?_, ?_⟩⟩
  · rw [hdeposits u hu, Deposit.solutions_concat, List.length_append, h.count]
    rfl
  · rw [hdeposits u hu, Deposit.solutions_concat, List.map_append, List.map_append, h.records]
    rfl

/-- A checkpoint is put next to it: it is of the iteration of the optimizer. -/
theorem Logged.checkpoint (h : Logged d o w) {c : SearchConfig α} {p : Progress α} {found : List (Solution α)}
    (hp : p.Tells c o found) {status : Status} {hitRate : α} {r : Except (Fault α) Unit}
    (hrun : (Journal.deposit (.checkpoint (p.checkpoint status hitRate))).run w = (r, w')) :
    Filed d w' ∧ ∀ u, r = .ok u → Kept d { o with solutions := found } w' := by
  have htells := h.tells hp status hitRate
  obtain ⟨hfiled, hdeposits⟩ := h.deposit (.checkpoint htells) hrun
  refine ⟨hfiled, fun u hu => ?_⟩
  have hsolutions : Deposit.solutions w'.deposits = Deposit.solutions w.deposits := by
    rw [hdeposits u hu, Deposit.solutions_concat]
    exact List.append_nil _
  refine ⟨⟨hfiled, by rw [hsolutions, h.count], by rw [hsolutions, h.records, unmarked_records hp.marked]⟩, fun v hv => ?_,
    fun _ => ?_⟩
  · rw [hdeposits u hu, Deposit.lastCheckpoint_concat] at hv
    obtain rfl := Option.some.inj hv
    exact htells.iteration_eq
  · rw [hdeposits u hu, Deposit.lastCheckpoint_concat]
    rfl

/-- The result is put next to it, with the solutions of the optimizer. -/
theorem Kept.result (h : Kept d o w) {r : SearchResult α} (hiterations : r.iterations = o.iteration)
    (hrecords : (r.solutions.map fun s => unmarkedField s.toValue.toRecord) =
      o.solutions.map fun s => unmarkedField s.toValue.toRecord) {answer : Except (Fault α) Unit}
    (hrun : (Journal.deposit (.result r.toValue)).run w = (answer, w')) :
    Filed d w' ∧ ∀ u, answer = .ok u → Concluded d r w' := by
  obtain ⟨hfiled, hdeposits⟩ := h.deposit ((h.sound _ List.prefix_rfl).other (x := .result r.toValue) rfl rfl) hrun
  refine ⟨hfiled, fun u hu => ?_⟩
  have hsolutions : Deposit.solutions w'.deposits = Deposit.solutions w.deposits := by
    rw [hdeposits u hu, Deposit.solutions_concat]
    exact List.append_nil _
  refine ⟨hfiled, ⟨_, hdeposits u hu⟩, ?_, ?_, fun hpositive => ?_⟩
  · rw [hsolutions, h.count, hiterations]
  · rw [hsolutions, h.records, hrecords]
  · rw [hiterations] at hpositive ⊢
    obtain ⟨v, hv⟩ := Option.isSome_iff_exists.1 (h.told hpositive)
    refine ⟨v, ?_, h.latest v hv⟩
    rw [hdeposits u hu, Deposit.lastCheckpoint_concat, hv]
    rfl

/-! ## Surroundings that store a run -/

/-- Surroundings that put into the directory what they are to store, and nothing else. -/
structure Surroundings.Stores (S : Surroundings (StateM (Journal τ α)) σ α) (d : Directory) : Prop where
  evaluate : ∀ e id a (w : Journal τ α), w.Same ((S.evaluate e id a).run w).2
  now : ∀ w : Journal τ α, w.Same (S.now.run w).2
  hitRate : ∀ w : Journal τ α, w.Same (S.hitRate.run w).2
  active : ∀ w : Journal τ α, w.Same (S.active.run w).2
  fetchReported : ∀ w : Journal τ α, w.Same (S.fetchReported.run w).2
  config : ∀ {v w r}, (S.storeConfig v).run w = r → (Journal.deposit (.config v)).run w = r
  solution : ∀ {v w r}, (S.storeSolution v).run w = r → (Journal.deposit (.solution v)).run w = r
  checkpoint : ∀ {v w r}, (S.storeCheckpoint v).run w = r → (Journal.deposit (.checkpoint v)).run w = r
  result : ∀ {v w r}, (S.storeResult v).run w = r → (Journal.deposit (.result v)).run w = r
  follow : ∀ p, Keeps (Kept d) (Filed d) (S.follow p)

/-- Whoever follows a run, the directory is left alone. -/
theorem journaled_stores (S : Surroundings (StateM τ) σ α) (watch : Watcher τ α) (d : Directory) :
    (S.journaled watch).Stores d where
  evaluate _ _ _ w := Journal.within_same _ w
  now w := Journal.within_same _ w
  hitRate w := Journal.within_same _ w
  active w := Journal.within_same _ w
  fetchReported w := Journal.within_same _ w
  config h := h
  solution h := h
  checkpoint h := h
  result h := h
  follow p := by
    intro o w h
    refine .get_bind (.outside_bind (.attempting_bind (fun _ w' hrun => ?_) fun asked w' hrun => ?_))
    · obtain ⟨-, rfl⟩ := Prod.mk.inj hrun
      exact h.toFiled.same (Journal.within_same _ w)
    · obtain ⟨-, rfl⟩ := Prod.mk.inj hrun
      have hkept := h.same (Journal.within_same (watch p o w.directory) w)
      cases asked with
      | true => exact ⟨⟨hkept.toFiled, hkept.count, hkept.records⟩, hkept.latest, hkept.told⟩
      | false => exact hkept

namespace Optimizer

section

variable {S : Surroundings (StateM (Journal τ α)) σ α} (hS : S.Stores d) (e : Evaluation α) (c : SearchConfig α)

include hS

/-- One evaluation: a solution is put into the log, and then a checkpoint that is level with it. -/
theorem step_stores (a : Assignment α) : Keeps (Kept d) (Filed d) (step S e c a) := by
  intro o w h
  unfold step
  have hsolve := fun id => solve_leads S e (K := w.Same) id a o (hS.evaluate e id a w)
  refine .get_bind (((hsolve _).mono (fun _ _ _ h => h) fun _ _ _ hsame => h.toFiled.same hsame.2).bind ?_)
  rintro s o₁ w₁ ⟨rfl, hsame₁⟩
  have h₁ := h.same hsame₁
  refine .modify_bind (.attempting_bind (fun _ _ hrun => (h₁.solution s (hS.solution hrun)).1) fun u w₂ hrun => ?_)
  have h₂ := (h₁.solution s (hS.solution hrun)).2 u rfl
  have hprogress := fun o => progress_leads S c (K := w₂.Same) (fun w' h => h.trans (hS.now w')) (fun w' h => h.trans (hS.active w'))
    (fun w' h => h.trans (hS.fetchReported w')) o (.refl w₂)
  refine ((hprogress _).mono (fun _ _ _ h => h) fun _ _ _ hsame => h₂.toFiled.same hsame.2).bind ?_
  rintro p o₃ w₃ ⟨⟨found, hp, rfl⟩, hsame₃⟩
  refine .outside_bind (.get_bind ?_)
  have h₄ := h₂.same (hsame₃.trans (hS.hitRate w₃))
  refine .attempting_bind (fun _ _ hrun => (h₄.checkpoint hp (hS.checkpoint hrun)).1) fun u w₅ hrun => ?_
  have h₅ := (h₄.checkpoint hp (hS.checkpoint hrun)).2 u rfl
  exact (hS.follow p _ w₅ h₅).bind fun _ _ _ h => .pure h

theorem begin_stores (blocks : List (Block α)) (o : Optimizer α) (inner : τ) :
    Leads (begin S blocks c) o ⟨inner, d, []⟩ (fun _ o' w' => Kept d o' w') fun _ _ w' => Filed d w' := by
  have hnew : Filed d (⟨inner, d, []⟩ : Journal τ α) := .new inner d
  have hsame := hS.now ⟨inner, d, []⟩
  have hstart := hnew.same hsame
  have hconfig := (hstart.sound _ List.prefix_rfl).other (x := .config c.toValue) rfl rfl
  unfold begin
  refine .get_bind ?_
  split
  · exact hnew
  · refine .given_bind (fun _ _ => hnew) fun _ _ => .given_bind (fun _ _ => hnew) fun e _ => .outside_bind (.set_bind ?_)
    refine .attempting_bind (fun _ _ hrun => (hstart.deposit hconfig (hS.config hrun)).1) fun u w' hrun => .pure ?_
    obtain ⟨hfiled, hdeposits⟩ := hstart.deposit hconfig (hS.config hrun)
    have hw' : w'.deposits = [.config c.toValue] := by
      rw [hdeposits u rfl, hsame.2]
      rfl
    refine ⟨⟨hfiled, by rw [hw']; rfl, by rw [hw']; rfl⟩, fun v hv => ?_, fun h => absurd h (Nat.lt_irrefl 0)⟩
    rw [hw'] at hv
    cases hv

theorem finish_concludes (o : Optimizer α) (w : Journal τ α) (h : Kept d o w) :
    Leads (finish S c) o w (fun r _ w' => Concluded d r w' ∧ r.iterations = o.iteration ∧
      r.solutions.map (·.id) = o.solutions.map (·.id)) fun _ _ w' => Filed d w' := by
  have hended : ∀ o' : Optimizer α, o' = (if o.status = .running then { o with status := .completed } else o) →
      o'.solutions = o.solutions ∧ o'.iteration = o.iteration := by
    rintro o' rfl
    split <;> exact ⟨rfl, rfl⟩
  unfold finish
  refine .modify_bind (.get_bind ?_)
  obtain ⟨hsolutions, hiteration⟩ := hended _ rfl
  rw [hsolutions, hiteration]
  refine .reading_bind (fun _ _ => h.toFiled) fun found hfound => .set_bind (.outside_bind (.outside_bind ?_))
  have hlast := h.same ((hS.now w).trans (hS.hitRate _))
  have hrecords := unmarked_records hfound
  refine .attempting_bind (fun _ _ hrun => (hlast.result rfl hrecords (hS.result hrun)).1) fun u w' hrun => .pure ?_
  exact ⟨(hlast.result rfl hrecords (hS.result hrun)).2 u rfl, rfl, Frontier.mark_names hfound⟩

theorem finish_stores (o : Optimizer α) (w : Journal τ α) (h : Kept d o w) :
    Leads (finish S c) o w (fun _ _ w' => Filed d w') fun _ _ w' => Filed d w' :=
  (finish_concludes hS c o w h).mono (fun _ _ _ h => h.1.toFiled) fun _ _ _ h => h

end

variable (S : Surroundings (StateM τ) σ α) (watch : Watcher τ α) (c : SearchConfig α)

/-- A run leaves a directory that can be cut anywhere. It is written in steps, and after any number of them
the checkpoint that is read is the last one that was completely written, the log has the solutions that were, and
the two agree. -/
theorem optimize_stored [RandomSource σ α] (hα : Json.Readable α) (blocks : List (Block α)) (o : Optimizer α) (inner : τ)
    {d : Directory} (hlog : d.text? solutionsFile = none) (hfile : d.text? checkpointFile = none) :
    ∃ (w : Journal τ α) (steps : List (List Step)),
      (((optimize (S.journaled watch) blocks c).run.run o).run ⟨inner, d, []⟩).2 = w ∧
      w.deposits.mapM Deposit.steps = .ok steps ∧ w.directory = afterAll d steps.flatten ∧
      ∀ k : Nat, let cut := afterAll d (steps.flatten.take k)
        let done := w.deposits.take (Deposit.complete k steps)
        loadCheckpoint cut = Deposit.lastCheckpoint done ∧ loadSolutions cut = Deposit.solutions done ∧
        ∀ v : Value α, loadCheckpoint cut = some v → Agrees v (loadSolutions cut) := by
  have hstores := journaled_stores S watch d
  have hfiled : Filed d (execute (optimize (S.journaled watch) blocks c) o ⟨inner, d, []⟩).2 :=
    optimize_keeps (fun _ _ h => h.toFiled) (fun e a => step_stores hstores e c a) (begin_stores hstores c blocks o inner)
      (finish_stores hstores c)
  obtain ⟨steps, hsettles, hsteps, hputs⟩ := deposits_steps hα d (execute (optimize (S.journaled watch) blocks c) o
    ⟨inner, d, []⟩).2.deposits
  have hdirectory := Except.ok.inj (hfiled.directory.symm.trans hputs)
  refine ⟨_, steps, rfl, hsteps, hdirectory, fun k => ?_⟩
  -- after some of the steps the directory holds the deposits that are complete by then, a prefix of all
  have hholds := holds_cut hsettles (k := k) (Holds.new hlog hfile)
  rw [List.nil_append] at hholds
  refine ⟨hholds.checkpoint, hholds.solutions, fun v hv => ?_⟩
  rw [hholds.checkpoint] at hv
  rw [hholds.solutions]
  exact hfiled.sound _ (List.take_prefix ..) v hv

/-! ### A run that is cut between a solution and its checkpoint -/

local instance decimalsOfRuns : Scalar ℚ := Decimals.scalars

local instance zeroSourceOfStores : RandomSource Unit ℚ := ⟨fun s => (0, s), fun _ s => (0, s)⟩

/-- Surroundings in which every candidate has the same score. -/
def evenly : Surroundings (StateM Unit) Unit ℚ :=
  { source := fun _ => .ok ()
    plan := .default
    evaluate := fun _ id a => pure (.ok
      { id, assignment := a, inside := [(.text "sharpe_ratio", .real (1 / 2))], outside := [], degradation := 0
        isOptimal := false, error := none, windowsFailed := 0 })
    now := pure 0, hitRate := pure 0, active := pure 0, fetchReported := pure []
    storeConfig := fun _ => pure (.ok ()), storeSolution := fun _ => pure (.ok ())
    storeCheckpoint := fun _ => pure (.ok ()), storeResult := fun _ => pure (.ok ())
    follow := fun _ => pure () }

/-- Stops a run after its second iteration. -/
def stopsAtTwo : Watcher Unit ℚ := fun p _ _ => pure (.ok (p.iteration = 2))

/-- The second solution is in the log, and its checkpoint is only drafted. -/
theorem cut_before_checkpoint : Json.Readable ℚ ∧ ∃ (w : Journal Unit ℚ) (steps : List (List Step)),
    (((optimize (evenly.journaled stopsAtTwo) swapped (searchFor .genetic 4)).run.run idle).run ⟨(), [], []⟩).2 = w ∧
    steps.flatten.length = 10 ∧ w.directory = afterAll [] steps.flatten ∧
    let cut := afterAll [] (steps.flatten.take 7)
    (loadSolutions (α := ℚ) cut).length = 2 ∧ ∃ v : Value ℚ, loadCheckpoint cut = some v ∧
      (recordField v "iteration").map Value.quoted = some "1" ∧ Agrees v (loadSolutions cut) := by
  obtain ⟨w, steps, hrun, hsteps, hdirectory, hcuts⟩ := optimize_stored evenly stopsAtTwo (searchFor .genetic 4)
    Decimals.readable swapped idle () (d := []) rfl rfl
  have hlength : (w.deposits.mapM Deposit.steps).toOption.map (fun steps => (steps.flatten.length, Deposit.complete 7 steps)) =
      some (10, 4) := by
    subst hrun
    decide +kernel
  rw [hsteps] at hlength
  obtain ⟨hlength, hcomplete⟩ := Prod.mk.inj (Option.some.inj hlength)
  obtain ⟨hcheckpoint, hsolutions, hagrees⟩ := hcuts 7
  rw [hcomplete] at hcheckpoint hsolutions
  have hcount : (Deposit.solutions (w.deposits.take 4)).length = 2 := by
    subst hrun
    decide +kernel
  have hlast : (Deposit.lastCheckpoint (w.deposits.take 4)).map (fun v => (recordField v "iteration").map Value.quoted) =
      some (some "1") := by
    subst hrun
    decide +kernel
  obtain ⟨v, hv, hiteration⟩ := Option.map_eq_some_iff.1 hlast
  refine ⟨Decimals.readable, w, steps, hrun, hlength, hdirectory, ?_, v, hcheckpoint.trans hv, hiteration, ?_⟩
  · rw [hsolutions, hcount]
  · exact hagrees v (hcheckpoint.trans hv)

end Optimizer

end StrategyLab
