/-
Which jobs share a kept result. Where the texts of scalars tell them apart, the fingerprint of a JSON
value is faithful: two values have one fingerprint exactly when they are equal up to the order of fields
(`fingerprint_eq_iff`), and two jobs have one exactly when their blocks, parameters and configurations
agree up to that order.
-/
import StrategyLab.Proofs.Schedule.Act
import StrategyLab.Proofs.Schedule.Transparent
import StrategyLab.Proofs.Schedule.Worker
import StrategyLab.Proofs.Value.Reordered

namespace StrategyLab

variable {α : Type} [Scalar α]

/-! ## Jobs -/

/-- Blocks that agree up to the order of their params. -/
structure Block.Reordered (b b' : Block α) : Prop where
  id : b.id = b'.id
  kind : b.kind = b'.kind
  category : b.category = b'.category
  label : b.label = b'.label
  params : (Value.object b.params).Reordered (.object b'.params)

/-- Configurations that agree up to the order of holdings. -/
structure RunConfig.Reordered (c c' : RunConfig α) : Prop where
  start : c.start = c'.start
  stop : c.stop = c'.stop
  capital : c.capital = c'.capital
  interval : c.interval = c'.interval
  baseCurrency : c.baseCurrency = c'.baseCurrency
  holdings : (Value.object c.holdings).Reordered (.object c'.holdings)
  granularity : c.granularity.Reordered c'.granularity

namespace Job

/-- All parts of a job are JSON values, and its dates are in the range of dates. -/
structure IsJson (j : Job α) : Prop where
  params : ∀ b ∈ j.blocks, (Value.object b.params).IsJson
  parameters : j.parameters.IsJson
  holdings : (Value.object j.config.holdings).IsJson
  granularity : j.config.granularity.IsJson
  start : ∀ ns, j.config.start = .known ns → Instant.inRange ns = true
  stop : ∀ ns, j.config.stop = .known ns → Instant.inRange ns = true

/-- Jobs that agree up to the order of fields. -/
structure Reordered (j j' : Job α) : Prop where
  blocks : List.Forall₂ Block.Reordered j.blocks j'.blocks
  parameters : j.parameters.Reordered j'.parameters
  config : j.config.Reordered j'.config

end Job

/-! ## Written forms -/

namespace Value

theorem IsJson.record {fields : List (String × Value α)} (hdistinct : (fields.map (·.1)).Nodup)
    (hvalues : ∀ f ∈ fields, f.2.IsJson) : (record fields).IsJson := by
  refine .object (fun f hf => ?_) ?_ fun f hf => ?_
  · obtain ⟨g, -, rfl⟩ := List.mem_map.1 hf
    exact ⟨g.1, rfl⟩
  · rw [List.map_map]
    exact hdistinct
  · obtain ⟨g, hg, rfl⟩ := List.mem_map.1 hf
    exact hvalues g hg

theorem IsJson.perm {fs gs : Object α} (h : (Value.object fs).IsJson) (hperm : fs.Perm gs) :
    (Value.object gs).IsJson := by
  rcases h with _ | _ | _ | _ | _ | ⟨hnames, hdistinct, hvalues⟩
  refine .object (fun f hf => hnames f (hperm.mem_iff.2 hf)) ?_ fun f hf => hvalues f (hperm.mem_iff.2 hf)
  exact (hperm.map _).nodup_iff.1 hdistinct

end Value

theorem Block.toValue_reordered_iff {b b' : Block α} : b.toValue.Reordered b'.toValue ↔ b.Reordered b' := by
  constructor
  · intro h
    have hcategory : (Value.text b.category.name).Reordered (.text b'.category.name) := h.field "category" rfl rfl
    exact
      { id := Value.reordered_text_iff.1 (h.field "id" rfl rfl)
        kind := Value.reordered_text_iff.1 (h.field "kind" rfl rfl)
        category := Category.name_injective (Value.reordered_text_iff.1 hcategory)
        label := Value.reordered_text_iff.1 (h.field "label" rfl rfl)
        params := h.field "params" rfl rfl }
  · rintro ⟨hid, hkind, hcategory, hlabel, hparams⟩
    refine .record (by simp) ?_
    rw [hid, hkind, hcategory, hlabel]
    exact .cons ⟨rfl, .text _⟩ (.cons ⟨rfl, .text _⟩ (.cons ⟨rfl, .text _⟩ (.cons ⟨rfl, .text _⟩
      (.cons ⟨rfl, hparams⟩ .nil))))

theorem RunConfig.toValue_reordered_iff {c c' : RunConfig α} (hstart : ∀ ns, c.start = .known ns → Instant.inRange ns = true)
    (hstop : ∀ ns, c.stop = .known ns → Instant.inRange ns = true)
    (hstart' : ∀ ns, c'.start = .known ns → Instant.inRange ns = true)
    (hstop' : ∀ ns, c'.stop = .known ns → Instant.inRange ns = true) :
    c.toValue.Reordered c'.toValue ↔ c.Reordered c' := by
  -- holdings are sorted before they are written, so that their order is lost
  have hsorted : ∀ c : RunConfig α, c.sortedHoldings.Perm c.holdings := fun c => List.mergeSort_perm _ _
  have hinstant : ∀ {t t' : Instant}, (Instant.toValue (α := α) t).Reordered t'.toValue → (Instant.toValue (α := α) t).Alike t'.toValue :=
    fun {t t'} h => congrArg (fun s => (Value.text (α := α) s).canonical) (Value.reordered_text_iff.1 h)
  constructor
  · intro h
    have hholdings : (Value.object c.sortedHoldings).Reordered (.object c'.sortedHoldings) :=
      h.field "initial_holdings" rfl rfl
    exact
      { start := Instant.toValue_injective hstart hstart' (hinstant (h.field "start_date" rfl rfl))
        stop := Instant.toValue_injective hstop hstop' (hinstant (h.field "end_date" rfl rfl))
        capital := Value.reordered_num_iff.1 (h.field "initial_capital" rfl rfl)
        interval := Value.reordered_num_iff.1 (h.field "rebalance_interval" rfl rfl)
        baseCurrency := Value.reordered_text_iff.1 (h.field "base_currency" rfl rfl)
        holdings := hholdings.of_perm (hsorted c) (hsorted c')
        granularity := h.field "granularity" rfl rfl }
  · rintro ⟨hstart, hstop, hcapital, hinterval, hbase, hholdings, hgranularity⟩
    refine .record (by simp) ?_
    rw [hstart, hstop, hcapital, hinterval, hbase]
    exact .cons ⟨rfl, .text _⟩ (.cons ⟨rfl, .text _⟩ (.cons ⟨rfl, .num _⟩ (.cons ⟨rfl, .num _⟩ (.cons ⟨rfl, .text _⟩
      (.cons ⟨rfl, hholdings.of_perm (hsorted c).symm (hsorted c').symm⟩ (.cons ⟨rfl, hgranularity⟩ .nil))))))

namespace Job

variable {j j' : Job α}

theorem IsJson.toWritable (hj : j.IsJson) : j.Writable :=
  ⟨fun b hb => (hj.params b hb).plain, hj.parameters.plain, hj.holdings.plain, hj.granularity.plain⟩

theorem IsJson.toValue_isJson (hj : j.IsJson) : j.toValue.IsJson := by
  have hblocks : (Value.list (j.blocks.map Block.toValue)).IsJson := by
    refine .list fun v hv => ?_
    obtain ⟨b, hb, rfl⟩ := List.mem_map.1 hv
    refine .record (by simp) ?_
    simp only [List.forall_mem_cons]
    exact ⟨.text _, .text _, .text _, .text _, hj.params b hb, nofun⟩
  have hconfig : j.config.toValue.IsJson := by
    refine .record (by simp) ?_
    simp only [List.forall_mem_cons]
    exact ⟨.text _, .text _, .num _, .num _, .text _, hj.holdings.perm (List.mergeSort_perm _ _).symm, hj.granularity, nofun⟩
  refine .record (by simp) ?_
  simp only [List.forall_mem_cons]
  exact ⟨hblocks, hj.parameters, hconfig, nofun⟩

theorem toValue_reordered_iff (hj : j.IsJson) (hj' : j'.IsJson) : j.toValue.Reordered j'.toValue ↔ j.Reordered j' := by
  have hconfig := RunConfig.toValue_reordered_iff hj.start hj.stop hj'.start hj'.stop
  have hblocks : (Value.list (j.blocks.map Block.toValue)).Reordered (.list (j'.blocks.map Block.toValue)) ↔
      List.Forall₂ Block.Reordered j.blocks j'.blocks := by
    rw [Value.reordered_list_iff, List.forall₂_map_left_iff, List.forall₂_map_right_iff]
    simp only [Block.toValue_reordered_iff]
  constructor
  · intro h
    exact ⟨hblocks.1 (h.field "blocks" rfl rfl), h.field "parameters" rfl rfl, hconfig.1 (h.field "config" rfl rfl)⟩
  · rintro ⟨hsame, hparameters, hsame'⟩
    refine .record (by simp) ?_
    exact .cons ⟨rfl, hblocks.2 hsame⟩ (.cons ⟨rfl, hparameters⟩ (.cons ⟨rfl, hconfig.2 hsame'⟩ .nil))

end Job

/-! ## Fingerprints -/

theorem Value.IsJson.fingerprint {v : Value α} (hv : v.IsJson) :
    Assignment.fingerprint v = .ok (String.ofList (Json.written v)) := by
  unfold Assignment.fingerprint
  have htext := Json.render_plain true hv.plain 0
  unfold Json.compact at htext
  rw [htext]
  rfl

/-- The fingerprint of a JSON value is faithful. -/
theorem Assignment.fingerprint_eq_iff (hα : Json.Legible α) {v w : Value α} (hv : v.IsJson) (hw : w.IsJson) :
    Assignment.fingerprint v = Assignment.fingerprint w ↔ v.Reordered w := by
  rw [hv.fingerprint, hw.fingerprint, ← hv.written_eq_iff hα hw]
  constructor
  · intro h
    exact String.ofList_injective (Except.ok.inj h)
  · intro h
    rw [h]

namespace Scheduler

/-- The fingerprint of a JSON value is faithful, and jobs share a kept result exactly when they agree: the
result of one is found for another, which has none yet, if and only if their blocks, parameters and
configurations are equal up to the order of fields. -/
theorem fingerprints_faithful (hα : Json.Legible α) :
    (∀ v w : Value α, v.IsJson → w.IsJson → ∃ key key', Assignment.fingerprint v = .ok key ∧
      Assignment.fingerprint w = .ok key' ∧ (key = key' ↔ v.Reordered w)) ∧
    ∀ j j' : Job α, j.IsJson → j'.IsJson → ∃ key key', fingerprint j = .ok key ∧ fingerprint j' = .ok key' ∧
      (key = key' ↔ j.Reordered j') ∧ ∀ (s : Scheduler α) (r : StoredReport α), s.cache.lookup key' = none →
        (((s.keep key r).lookUp key').1 = some r ↔ j.Reordered j') := by
  have hvalues : ∀ v w : Value α, v.IsJson → w.IsJson → ∃ key key', Assignment.fingerprint v = .ok key ∧
      Assignment.fingerprint w = .ok key' ∧ (key = key' ↔ v.Reordered w) := by
    intro v w hv hw
    refine ⟨_, _, hv.fingerprint, hw.fingerprint, ?_⟩
    rw [← Assignment.fingerprint_eq_iff hα hv hw, hv.fingerprint, hw.fingerprint, Except.ok.injEq]
  refine ⟨hvalues, fun j j' hj hj' => ?_⟩
  obtain ⟨key, key', hkey, hkey', hiff⟩ := hvalues _ _ hj.toValue_isJson hj'.toValue_isJson
  rw [Job.toValue_reordered_iff hj hj'] at hiff
  refine ⟨key, key', hkey, hkey', hiff, fun s r hnone => ?_⟩
  -- nothing was kept under the second key, so that a result found there was kept under the first
  have hfound : ((s.keep key r).lookUp key').1 = if key' = key then some r else none := by
    unfold lookUp
    rw [lookup_keep, hnone]
    split_ifs <;> rfl
  rw [hfound, ← hiff]
  constructor
  · intro h
    by_contra hne
    rw [if_neg (Ne.symm hne)] at h
    cases h
  · intro h
    rw [if_pos h.symm]

local instance : ExactArithmetic := fractionsWritten

/-- A weight beside a list, and the same in the other order; a whole number in the place of a real one makes a difference. -/
theorem weights_told_apart :
    let v : Value ℚ := .record [("weight", .real 1), ("steps", .list [.null, .truth true, .whole 1])]
    let w : Value ℚ := .record [("steps", .list [.null, .truth true, .whole 1]), ("weight", .real 1)]
    let u : Value ℚ := .record [("weight", .whole 1), ("steps", .list [.null, .truth true, .whole 1])]
    Assignment.fingerprint v = Assignment.fingerprint w ∧ Assignment.fingerprint v ≠ Assignment.fingerprint u := by
  intro v w u
  have hsteps : (Value.list [.null, .truth true, .whole 1] : Value ℚ).IsJson := by
    refine .list ?_
    simp only [List.forall_mem_cons]
    exact ⟨.null, .truth true, .num _, nofun⟩
  have hjson : ∀ x : Num ℚ, (Value.record [("weight", .num x), ("steps", .list [.null, .truth true, .whole 1])]).IsJson := by
    intro x
    refine .record (by simp) ?_
    simp only [List.forall_mem_cons]
    exact ⟨.num x, hsteps, nofun⟩
  have hv : v.IsJson := hjson (.real 1)
  have hperm : List.Perm [((Key.text "weight" : Key ℚ), Value.real (1 : ℚ)), (.text "steps", .list [.null, .truth true, .whole 1])]
      [(.text "steps", .list [.null, .truth true, .whole 1]), (.text "weight", .real 1)] := .swap _ _ _
  have hw : w.IsJson := hv.perm hperm
  have hswap : v.Reordered w := (hv.reordered hv rfl).of_perm (.refl _) hperm
  have hother : ¬ v.Reordered u := fun h => by
    have hweight : (Value.num (.real (1 : ℚ))).Reordered (.num (.whole 1)) := h.field "weight" rfl rfl
    cases Value.reordered_num_iff.1 hweight
  obtain ⟨hfaithful, -⟩ := fingerprints_faithful legible_fractions
  obtain ⟨key, key', hkey, hkey', hsame⟩ := hfaithful v w hv hw
  obtain ⟨key₁, key₂, hkey₁, hkey₂, hdiffers⟩ := hfaithful v u hv (hjson (.whole 1))
  refine ⟨by rw [hkey, hkey', hsame.2 hswap], fun h => hother (hdiffers.1 ?_)⟩
  rw [hkey₁, hkey₂] at h
  exact Except.ok.inj h

end Scheduler

end StrategyLab
