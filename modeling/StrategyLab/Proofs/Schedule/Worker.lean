/-
What workers answer. A worker that is asked for a job reads back the strategy and a configuration that
is alike, so that it answers with the result of the job's direct run, or with an error where that run
raises a fault (`failureOf_answer_ok`, `failureOf_answer_error`). Jobs with one fingerprint are alike
(`alike_of_fingerprint`), and so are their runs (`simulate_alike`).
-/
import StrategyLab.Proofs.Schedule.Fingerprint
import StrategyLab.Proofs.Simulation.Written
import StrategyLab.Schedule.Batch

namespace StrategyLab

/-! ## Direct runs -/

namespace Job

variable {α : Type} [Scalar α]

/-- The run that a job asks for, made directly. -/
def simulate (o : Oracle α) (j : Job α) : Except (Fault α) (Report α) :=
  Assignment.overrideBlocks j.parameters j.blocks >>= fun blocks => Simulation.run blocks o j.config

/-- A job that a request carries without loss: values that JSON can write, blocks with kinds, a checked
configuration, and overriding parameters given as an object. -/
structure Carried (j : Job α) : Prop extends j.Writable where
  kinds : ∀ b ∈ j.blocks, b.kind ≠ ""
  checked : j.config.Checked
  named : ∃ ps, j.parameters = .object ps

/-- A job that its fingerprint tells apart from all that run differently: no object stands in a list of
overriding fields, and none in a param that is read as text. -/
structure Regular (j : Job α) : Prop extends j.Carried where
  ordered : ∀ ps, j.parameters = .object ps → ∀ b ∈ j.blocks, ∀ own, Object.get? ps b.id = some own → own.Ordered
  texts : ∀ bs, Assignment.overrideBlocks j.parameters j.blocks = .ok bs → ∀ b ∈ bs, ∀ name ∈ Block.textParams,
    ∀ v, b.param? name = some v → v.Flat

/-- Jobs that JSON text cannot tell apart. -/
structure Alike (j j' : Job α) : Prop where
  blocks : List.Forall₂ Block.Alike j.blocks j'.blocks
  parameters : j.parameters.Alike j'.parameters
  config : j.config.Alike j'.config

end Job

/-! ## Jobs with one fingerprint -/

section

variable {α : Type} [Scalar α]

theorem Value.Alike.field {fs gs : Object α} (h : (Value.object fs).Alike (.object gs)) (hfs : (Value.object fs).Plain)
    (name : String) {v w : Value α} (hv : fs.get? name = some v) (hw : gs.get? name = some w) : v.Alike w := by
  have hsame := h.fields hfs name
  rw [Object.get?_told, Object.get?_told, hv, hw] at hsame
  exact Option.some.inj hsame

theorem Value.Alike.text_eq {s t : String} (h : (Value.text (α := α) s).Alike (.text t)) : s = t :=
  Value.text.inj (Flat.eq (.text s) (.text t) h)

theorem Value.Alike.num_eq {x y : Num α} (h : (Value.num x).Alike (.num y)) : x = y :=
  Value.num.inj (Flat.eq (.num x) (.num y) h)

theorem Category.name_injective {c c' : Category} (h : c.name = c'.name) : c = c' := by
  have hread := congrArg (fun s => Category.ofName? (Text.upper s)) h
  simpa [Block.ofName?_category] using hread

theorem Block.alike_of_toValue {b b' : Block α} (h : b.toValue.Alike b'.toValue) (hb : (Value.object b.params).Plain) :
    b.Alike b' := by
  have hplain := Block.toValue_plain hb
  have hid : (Value.text b.id).Alike (.text b'.id) := h.field hplain "id" rfl rfl
  have hkind : (Value.text b.kind).Alike (.text b'.kind) := h.field hplain "kind" rfl rfl
  have hcategory : (Value.text b.category.name).Alike (.text b'.category.name) := h.field hplain "category" rfl rfl
  have hlabel : (Value.text b.label).Alike (.text b'.label) := h.field hplain "label" rfl rfl
  have hparams : (Value.object b.params).Alike (.object b'.params) := h.field hplain "params" rfl rfl
  exact ⟨hid.text_eq, hkind.text_eq, Category.name_injective hcategory.text_eq, hlabel.text_eq, hparams.fields hb⟩

theorem Block.alike_of_toValues : ∀ {bs bs' : List (Block α)}, (∀ b ∈ bs, (Value.object b.params).Plain) →
    (bs.map fun b => b.toValue.canonical) = bs'.map (fun b => b.toValue.canonical) → List.Forall₂ Alike bs bs'
  | [], bs', _, h => by
    obtain rfl := List.map_eq_nil_iff.1 h.symm
    exact .nil
  | b :: bs, bs', hparams, h => by
    obtain ⟨b', bs', rfl, hb', hrest⟩ := List.map_eq_cons_iff.1 h.symm
    exact .cons (alike_of_toValue hb'.symm (hparams b List.mem_cons_self))
      (alike_of_toValues (fun x hx => hparams x (List.mem_cons_of_mem b hx)) hrest.symm)

theorem Instant.toValue_injective {t t' : Instant} (ht : ∀ ns, t = .known ns → inRange ns = true)
    (ht' : ∀ ns, t' = .known ns → inRange ns = true) (h : (toValue (α := α) t).Alike t'.toValue) : t = t' := by
  have htext : t.text = t'.text := Value.Alike.text_eq h
  have hread := read_text ht
  rw [htext, read_text ht'] at hread
  exact (Except.ok.inj hread).symm

theorem RunConfig.alike_of_toValue {c c' : RunConfig α} (h : c.toValue.Alike c'.toValue) (hc : c.Checked)
    (hc' : c'.Checked) (hholdings : (Value.object c.holdings).Plain) (hgranularity : c.granularity.Plain) :
    c.Alike c' := by
  have hplain := RunConfig.toValue_plain hholdings hgranularity
  have hcapital : (Value.num c.capital).Alike (.num c'.capital) := h.field hplain "initial_capital" rfl rfl
  have hinterval : (Value.num c.interval).Alike (.num c'.interval) := h.field hplain "rebalance_interval" rfl rfl
  have hbase : (Value.text c.baseCurrency).Alike (.text c'.baseCurrency) := h.field hplain "base_currency" rfl rfl
  have hsorted : (Value.object c.sortedHoldings).Alike (.object c'.sortedHoldings) :=
    h.field hplain "initial_holdings" rfl rfl
  have hperm : ∀ c : RunConfig α, (Object.told c.sortedHoldings).Perm (Object.told c.holdings) := fun c =>
    (List.mergeSort_perm c.holdings _).map _
  exact
    { start := Instant.toValue_injective hc.start hc'.start (h.field hplain "start_date" rfl rfl)
      stop := Instant.toValue_injective hc.stop hc'.stop (h.field hplain "end_date" rfl rfl)
      capital := congrArg Num.value hcapital.num_eq
      interval := hinterval.num_eq
      baseCurrency := hbase.text_eq
      holdings := (hperm c).symm.trans ((Object.told_perm hsorted).trans (hperm c'))
      granularity := h.field hplain "granularity" rfl rfl }

namespace Job

variable {j j' : Job α}

/-- Jobs with one fingerprint are alike. -/
theorem alike_of_fingerprint (hα : Json.Legible α) (hj : j.Carried) (hj' : j'.Carried)
    (h : Scheduler.fingerprint j = Scheduler.fingerprint j') : j.Alike j' := by
  rw [Scheduler.fingerprint_writable hj.toWritable, Scheduler.fingerprint_writable hj'.toWritable] at h
  have hplain := hj.toWritable.toValue_plain
  have htold : j.toValue.Alike j'.toValue := Json.written_canonical hα hplain hj'.toWritable.toValue_plain
    (String.ofList_injective (Except.ok.inj h))
  refine ⟨?_, htold.field hplain "parameters" rfl rfl, ?_⟩
  · have hlist : (Value.list (j.blocks.map Block.toValue)).Alike (.list (j'.blocks.map Block.toValue)) :=
      htold.field hplain "blocks" rfl rfl
    unfold Value.Alike at hlist
    rw [Value.canonical_list, Value.canonical_list] at hlist
    have hblocks := Value.list.inj hlist
    rw [List.map_map, List.map_map] at hblocks
    exact Block.alike_of_toValues hj.params hblocks
  · exact RunConfig.alike_of_toValue (htold.field hplain "config" rfl rfl) hj.checked hj'.checked hj.holdings
      hj.granularity

end Job

end

/-! ## Runs of jobs that are alike -/

section

variable {α : Type} [Scalar α]

theorem Block.Alike.read {b b' : Block α} (h : b.Alike b')
    (hb : ∀ name ∈ textParams, ∀ v, b.param? name = some v → v.Flat)
    (hb' : ∀ name ∈ textParams, ∀ v, b'.param? name = some v → v.Flat) : b.ReadAlike b' := by
  refine { h with texts := fun name hname => ?_ }
  rcases h.param? name with ⟨hnone, hnone'⟩ | ⟨v, v', hv, hv', halike⟩
  · rw [hnone, hnone']
  · rw [hv, hv', Value.Flat.eq (hb name hname v hv) (hb' name hname v' hv') halike]

theorem Block.readAlike_of_flat {bs bs' : List (Block α)} (h : List.Forall₂ Alike bs bs')
    (hbs : ∀ b ∈ bs, ∀ name ∈ textParams, ∀ v, b.param? name = some v → v.Flat)
    (hbs' : ∀ b ∈ bs', ∀ name ∈ textParams, ∀ v, b.param? name = some v → v.Flat) :
    List.Forall₂ ReadAlike bs bs' := by
  induction h with
  | nil => exact .nil
  | cons hb _ ih =>
    rw [List.forall_mem_cons] at hbs hbs'
    exact .cons (hb.read hbs.1 hbs'.1) (ih hbs.2 hbs'.2)

end

variable [ExactArithmetic]

namespace Job

/-- Jobs that are alike have the same result, or both raise a fault. -/
theorem simulate_alike (o : Oracle ℚ) {j j' : Job ℚ} (hj : j.Regular) (hj' : j'.Regular) (h : j.Alike j') :
    Agree anyCause Eq (j.simulate o) (j'.simulate o) := by
  obtain ⟨ps, hps⟩ := hj.named
  obtain ⟨ps', hps'⟩ := hj'.named
  have hplain : (Value.object ps).Plain := hps ▸ hj.parameters
  have hparameters : (Value.object ps).Alike (.object ps') := hps ▸ hps' ▸ h.parameters
  have hblocks := Assignment.overrideBlocks_alike hplain (hparameters.fields hplain) h.blocks (hj.ordered ps hps)
  rw [← hps, ← hps'] at hblocks
  have htexts := hj.texts
  have htexts' := hj'.texts
  unfold simulate
  generalize Assignment.overrideBlocks j.parameters j.blocks = x at hblocks htexts
  generalize Assignment.overrideBlocks j'.parameters j'.blocks = x' at hblocks htexts'
  cases hblocks with
  | error _ => exact .error trivial
  | @ok bs bs' hbs =>
    exact Simulation.run_alike (Block.readAlike_of_flat hbs (htexts bs rfl) (htexts' bs' rfl)) o h.config

/-- A job as a worker reads it. -/
def restored (j : Job ℚ) : Job ℚ := { j with config := j.config.restored }

/-- What a worker reads runs as what was asked for. -/
theorem simulate_restored (o : Oracle ℚ) (j : Job ℚ) : Agree anyCause Eq (j.simulate o) (j.restored.simulate o) :=
  (Agree.of_eq (fun _ => trivial) rfl).bind_eq fun _ =>
    Simulation.run_alike (List.forall₂_same.2 fun b _ => .refl b) o RunConfig.restored_alike

end Job

/-! ## Answers -/

open Scheduler

theorem Worker.run_requestOf (o : Oracle ℚ) {j : Job ℚ} (hj : j.Carried) (id : String) :
    Worker.run (some o) (requestOf id j) j.parameters = j.restored.simulate o := by
  change (do
    let given ← Block.listOfValue (.list (j.blocks.map Block.toValue))
    let blocks ← Assignment.overrideBlocks j.parameters given
    let config ← RunConfig.ofValue j.config.toValue
    Simulation.run blocks o config) = _
  rw [Block.listOfValue_toValue hj.kinds, RunConfig.ofValue_toValue hj.checked]
  rfl

theorem Worker.answer_requestOf (o : Oracle ℚ) {j : Job ℚ} (hj : j.Carried) (id : String) :
    (∀ r, j.restored.simulate o = .ok r → Worker.answer (some o) (requestOf id j) = .result (.text id) j.parameters r) ∧
      ∀ f, j.restored.simulate o = .error f →
        Worker.answer (some o) (requestOf id j) = .error (.text id) j.parameters f.message f.kind.name := by
  obtain ⟨ps, hps⟩ := hj.named
  have hid : Object.get? (requestOf id j) "id" = some (.text id) := rfl
  have htype : Object.get? (requestOf id j) "type" = some (.text backtestType) := rfl
  have hparameters : Object.get? (requestOf id j) "parameters" = some j.parameters := rfl
  have hgiven : ((some j.parameters).filter Value.isPresent).getD (.object []) = j.parameters := by
    rw [hps]
    cases ps <;> rfl
  have hanswer := Worker.run_requestOf o hj id
  unfold Worker.answer
  rw [hid, htype, hparameters, hgiven]
  dsimp only [Value.ofOption, Option.getD_some]
  rw [hanswer]
  constructor
  · intro r hr
    rw [hr]
    rfl
  · intro f hf
    rw [hf]
    rfl

variable (plan : SchedulerPlan ℚ) {o : Oracle ℚ} {j : Job ℚ}

/-- The result of the direct run comes back as it is stored. -/
theorem Scheduler.failureOf_answer_ok (hj : j.Carried) {r : Report ℚ} (h : j.simulate o = .ok r) (id : String) :
    failureOf plan j.parameters (.answered (Worker.answer (some o) (requestOf id j))) = .ok r.stored := by
  have hagree := j.simulate_restored o
  rw [h] at hagree
  generalize hr : j.restored.simulate o = x at hagree
  cases hagree with
  | ok heq =>
    subst heq
    rw [(Worker.answer_requestOf o hj id).1 r hr]
    obtain ⟨bs, -, hrun⟩ := bind_ok hr
    have hchecked := RunConfig.restored_checked hj.checked
    obtain ⟨hcurve, htrades⟩ := Simulation.run_inRange hchecked.start hchecked.stop hchecked.order hrun
    unfold failureOf
    dsimp only
    rw [StoredReport.ofValue_toValue hcurve htrades]

/-- A fault of the direct run comes back as a failure. -/
theorem Scheduler.failureOf_answer_error (hj : j.Carried) {f : Fault ℚ} (h : j.simulate o = .error f) (id : String) :
    ∃ e, failureOf plan j.parameters (.answered (Worker.answer (some o) (requestOf id j))) = .error (.failure e) := by
  have hagree := j.simulate_restored o
  rw [h] at hagree
  generalize hr : j.restored.simulate o = x at hagree
  cases hagree with
  | @error _ f' _ =>
    rw [(Worker.answer_requestOf o hj id).2 f' hr]
    exact ⟨_, rfl⟩

end StrategyLab
