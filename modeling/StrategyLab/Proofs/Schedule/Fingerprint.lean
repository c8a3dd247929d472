/-
The fingerprints of jobs. A job whose values JSON can write has one (`fingerprint_writable`), and it
is made of the characters of the job's written form.
-/
import StrategyLab.Proofs.Json.Written
import StrategyLab.Schedule.Scheduler

namespace StrategyLab

variable {α : Type} [Scalar α]

/-! ## Written forms of records -/

theorem Value.Plain.record {fields : List (String × Value α)} (hdistinct : (fields.map (·.1)).Nodup)
    (hvalues : ∀ f ∈ fields, f.2.Plain) : (Value.record fields).Plain := by
  unfold Value.record
  refine .object (fun f hf => ?_) ?_ fun f hf => ?_
  · obtain ⟨g, -, rfl⟩ := List.mem_map.1 hf
    exact ⟨g.1, rfl⟩
  · rw [List.map_map]
    exact hdistinct
  · obtain ⟨g, hg, rfl⟩ := List.mem_map.1 hf
    exact hvalues g hg

theorem Block.toValue_plain {b : Block α} (hparams : (Value.object b.params).Plain) : b.toValue.Plain := by
  refine .record (by simp) ?_
  simp only [List.forall_mem_cons]
  exact ⟨.text _, .text _, .text _, .text _, hparams, nofun⟩

theorem RunConfig.sortedHoldings_plain {c : RunConfig α} (h : (Value.object c.holdings).Plain) :
    (Value.object c.sortedHoldings).Plain := by
  have hperm : c.sortedHoldings.Perm c.holdings := List.mergeSort_perm _ _
  cases h with
  | object hnames hdistinct hvalues =>
    refine .object (fun f hf => hnames f (hperm.mem_iff.1 hf)) ?_ fun f hf => hvalues f (hperm.mem_iff.1 hf)
    exact (hperm.map _).nodup_iff.2 hdistinct

theorem RunConfig.toValue_plain {c : RunConfig α} (hholdings : (Value.object c.holdings).Plain)
    (hgranularity : c.granularity.Plain) : c.toValue.Plain := by
  refine .record (by simp) ?_
  simp only [List.forall_mem_cons]
  exact ⟨.text _, .text _, .num _, .num _, .text _, sortedHoldings_plain hholdings, hgranularity, nofun⟩

namespace Job

/-- What the fingerprint of a job is taken of. -/
def toValue (j : Job α) : Value α :=
  .record [("blocks", .list (j.blocks.map Block.toValue)), ("parameters", j.parameters), ("config", j.config.toValue)]

/-- All parts of a job are values that JSON can write. -/
structure Writable (j : Job α) : Prop where
  params : ∀ b ∈ j.blocks, (Value.object b.params).Plain
  parameters : j.parameters.Plain
  holdings : (Value.object j.config.holdings).Plain
  granularity : j.config.granularity.Plain

theorem Writable.toValue_plain {j : Job α} (hj : j.Writable) : j.toValue.Plain := by
  refine .record (by simp) ?_
  simp only [List.forall_mem_cons]
  refine ⟨.list fun v hv => ?_, hj.parameters, RunConfig.toValue_plain hj.holdings hj.granularity, nofun⟩
  obtain ⟨b, hb, rfl⟩ := List.mem_map.1 hv
  exact Block.toValue_plain (hj.params b hb)

end Job

/-! ## Fingerprints -/

/-- The fingerprint of a job whose parts can be written. -/
theorem Scheduler.fingerprint_writable {j : Job α} (hj : j.Writable) :
    fingerprint j = .ok (String.ofList (Json.written j.toValue)) := by
  unfold fingerprint Assignment.fingerprint
  have htext := Json.render_plain true hj.toValue_plain 0
  unfold Json.compact Job.toValue at htext
  rw [htext]
  rfl

end StrategyLab
