/-
Written forms read back: those of blocks (`Block.listOfValue_toValue`), of configurations
(`RunConfig.ofValue_toValue`) and of results (`StoredReport.ofValue_toValue`). A configuration comes
back with its holdings in the order of their names and its capital as a scalar, which a run does not
see (`RunConfig.restored_alike`).
-/
import StrategyLab.Proofs.Simulation.Alike
import StrategyLab.Proofs.Simulation.Steps
import StrategyLab.Proofs.Time.Text

namespace StrategyLab

variable {α : Type} [Scalar α]

/-- What is written item by item reads back item by item. -/
theorem mapM_read {ε β γ δ : Type} (read : γ → Except ε δ) (f : β → γ) (g : β → δ) {xs : List β}
    (h : ∀ x ∈ xs, read (f x) = .ok (g x)) : (xs.map f).mapM read = .ok (xs.map g) :=
  mapM_of_forall₂ (List.forall₂_map_left_iff.2 (List.forall₂_map_right_iff.2 (List.forall₂_same.2 h)))

theorem Instant.ofValue_toValue {t : Instant} (h : ∀ ns, t = .known ns → inRange ns = true) :
    ofValue (α := α) t.toValue = .ok t := by
  unfold toValue ofValue
  dsimp only
  rw [read_text h]
  rfl

/-! ## Blocks -/

namespace Block

theorem ofName?_category (c : Category) : Category.ofName? (Text.upper c.name) = some c := by
  cases c <;> decide

theorem presentText_cons (v : Value α) (rest : List (Option (Value α))) :
    presentText (some v :: rest) = if v.isPresent then v.shown else presentText rest := by
  unfold presentText
  rw [List.filterMap_cons, Option.filter_some]
  cases v.isPresent <;> rfl

/-- A text is read as it is, also where it is empty. -/
theorem presentText_text (s : String) : presentText [some (Value.text (α := α) s)] = s := by
  rw [presentText_cons]
  by_cases h : s = ""
  · subst h
    rfl
  · rw [if_pos (show (Value.text (α := α) s).isPresent = true by simpa [Value.isPresent] using h)]
    rfl

theorem presentText_first {s : String} (h : s ≠ "") (rest : List (Option (Value α))) :
    presentText (some (.text s) :: rest) = s := by
  rw [presentText_cons, if_pos (show (Value.text (α := α) s).isPresent = true by simpa [Value.isPresent] using h)]
  rfl

end Block

theorem Value.objectOrEmpty_object (fields : Object α) : objectOrEmpty (some (.object fields)) = .ok fields := by
  unfold objectOrEmpty
  cases fields <;> rfl

namespace Block

/-- A block with all its fields. -/
theorem ofValue_fields {b : Block α} {fields : Object α} (hid : fields.get? "id" = some (.text b.id))
    (hkind : fields.get? "kind" = some (.text b.kind)) (hcategory : fields.get? "category" = some (.text b.category.name))
    (hlabel : fields.get? "label" = some (.text b.label)) (hparams : fields.get? "params" = some (.object b.params))
    (h : b.kind ≠ "") : ofValue (.object fields) = .ok b := by
  have hnonempty : ¬ b.kind.isEmpty = true := by simpa using h
  have hname : b.category.name ≠ "" := by cases b.category <;> decide
  unfold ofValue Value.field
  change (if _ then _ else _) = _
  rw [hkind, hid, hcategory, hlabel, hparams, presentText_first h, presentText_first hname, presentText_text,
    ofName?_category, if_neg hnonempty, Value.objectOrEmpty_object]
  rfl

theorem ofValue_toValue {b : Block α} (h : b.kind ≠ "") : ofValue b.toValue = .ok b :=
  ofValue_fields rfl rfl rfl rfl rfl h

/-- A list of blocks reads back. -/
theorem listOfValue_toValue {bs : List (Block α)} (h : ∀ b ∈ bs, b.kind ≠ "") :
    listOfValue (.list (bs.map toValue)) = .ok bs := by
  show (bs.map toValue).mapM ofValue = .ok bs
  have hread := mapM_read ofValue toValue (fun b => b) fun b hb => ofValue_toValue (h b hb)
  rwa [List.map_id'] at hread

end Block

/-! ## Configurations -/

namespace RunConfig

/-- A configuration of checked parts, whose interval is whole. -/
structure Checked (c : RunConfig α) : Prop where
  start : ∀ ns, c.start = .known ns → Instant.inRange ns = true
  stop : ∀ ns, c.stop = .known ns → Instant.inRange ns = true
  order : c.stop.isAtMost c.start = false
  capital : c.capital.isAtMost (.whole 0) = false
  interval : ∃ n : Int, 0 < n ∧ c.interval = .whole n

/-- What a configuration reads back as. -/
def restored (c : RunConfig α) : RunConfig α :=
  { c with capital := .real c.capital.value, holdings := c.sortedHoldings }

/-- Checked parts pass the checks. -/
theorem build_checked {c : RunConfig α} (h : c.Checked) : build c.start.toValue c.stop.toValue (.num c.capital)
    (.num c.interval) c.baseCurrency c.holdings c.granularity = .ok c := by
  obtain ⟨n, hpos, hinterval⟩ := h.interval
  have hwhole : (Num.whole (α := α) n).isAtMost (.whole 0) = false := by
    simp [Num.isAtMost, Num.compare?, compare_gt_iff_gt.2 hpos]
  have horder : ¬ c.stop.isAtMost c.start = true := by simp [h.order]
  unfold build
  rw [Instant.ofValue_toValue h.start, Instant.ofValue_toValue h.stop]
  change (if c.stop.isAtMost c.start = true then _ else _) = _
  rw [if_neg horder]
  unfold positiveNum Value.number?
  dsimp only
  rw [h.capital, hinterval, hwhole]
  rw [← hinterval]
  rfl

section

variable [ExactArithmetic]

theorem restored_checked {c : RunConfig ℚ} (h : c.Checked) : c.restored.Checked :=
  { h with
    capital := by
      rw [← h.capital, Bool.eq_iff_iff, Num.isAtMost_iff, Num.isAtMost_iff]
      rfl }

theorem ofValue_toValue {c : RunConfig ℚ} (h : c.Checked) : ofValue c.toValue = .ok c.restored := by
  obtain ⟨n, -, hinterval⟩ := h.interval
  have hcapital : (Value.num c.capital).toReal = .ok c.capital.value := by
    unfold Value.toReal Value.realOfNum
    dsimp only
    rw [Num.value?_exact]
  rw [← build_checked (restored_checked h)]
  change (do
    let capital ← (liftM (Value.num c.capital).toReal : Except (Fault ℚ) ℚ)
    let interval ← (liftM (Value.num c.interval).toWhole : Except (Fault ℚ) Int)
    let holdings ← (liftM (Value.objectOrEmpty (some (.object c.sortedHoldings))) : Except (Fault ℚ) (Object ℚ))
    build c.start.toValue c.stop.toValue (.real capital) (.whole interval) c.baseCurrency holdings c.granularity) =
      build c.start.toValue c.stop.toValue (.real c.capital.value) (.num c.interval) c.baseCurrency c.sortedHoldings
        c.granularity
  rw [hcapital, hinterval, Value.objectOrEmpty_object]
  rfl

theorem restored_alike {c : RunConfig ℚ} : c.Alike c.restored where
  start := rfl
  stop := rfl
  capital := rfl
  interval := rfl
  baseCurrency := rfl
  holdings := ((List.mergeSort_perm _ _).map _).symm
  granularity := rfl

end

end RunConfig

/-! ## Results -/

theorem Metrics.ofValue_toValue (m : Metrics (Value α)) : ofValue m.toValue = .ok m := rfl

theorem Trade.readStored_toValue {t : Trade α} (h : ∀ ns, t.timestamp = .known ns → Instant.inRange ns = true) :
    readStored t.toValue = .ok t.stored := by
  change (do
    let time ← Instant.ofValue t.timestamp.toValue
    (pure (time, t.stored.2) : Except (Fault α) _)) = _
  rw [Instant.ofValue_toValue h]
  rfl

namespace StoredReport

theorem readPoint_record {t : Instant} (h : ∀ ns, t = .known ns → Instant.inRange ns = true) (x : α) :
    readPoint (.record [("date", t.toValue), ("equity", .real x)]) = .ok (t, x) := by
  change (do
    let time ← Instant.ofValue t.toValue
    (pure (time, x) : Except (Fault α) _)) = _
  rw [Instant.ofValue_toValue h]
  rfl

/-- The result of a run reads back as it is stored, if its instants are in range. -/
theorem ofValue_toValue {r : Report α} (hcurve : ∀ p ∈ r.curve, ∀ ns, p.1 = .known ns → Instant.inRange ns = true)
    (htrades : ∀ x ∈ r.trades, ∀ ns, x.timestamp = .known ns → Instant.inRange ns = true) :
    ofValue r.toValue = .ok r.stored := by
  have hpoints : (r.curve.map fun p => Value.record [("date", p.1.toValue), ("equity", .real p.2)]).mapM readPoint =
      .ok r.curve := by
    have hread := mapM_read readPoint (fun p : Instant × α => .record [("date", p.1.toValue), ("equity", .real p.2)])
      (fun p => p) fun (p : Instant × α) hp => readPoint_record (hcurve p hp) p.2
    rwa [List.map_id'] at hread
  have hlog : (r.trades.map Trade.toValue).mapM Trade.readStored = .ok (r.trades.map Trade.stored) :=
    mapM_read _ _ _ fun x hx => Trade.readStored_toValue (htrades x hx)
  change (do
    let trades ← (r.trades.map Trade.toValue).mapM Trade.readStored
    let curve ← (r.curve.map fun p : Instant × α => Value.record [("date", p.1.toValue), ("equity", .real p.2)]).mapM readPoint
    (pure { metrics := r.metrics.written, curve, trades, skipped := r.skipped } : Except (Fault α) (StoredReport α))) = _
  rw [hpoints, hlog]
  rfl

end StoredReport

/-! ## The instants of a run -/

namespace Simulation

variable {c : RunConfig α} (hstart : ∀ ns, c.start = .known ns → Instant.inRange ns = true)
  (hstop : ∀ ns, c.stop = .known ns → Instant.inRange ns = true) (horder : c.stop.isAtMost c.start = false)

include hstart hstop horder

/-- The instants of a grid lie between instants in range, whatever its interval is. -/
theorem grid_inRange {grid : List Instant} (h : Grid.build c.start c.stop c.interval = .ok grid) :
    ∀ t ∈ grid, ∀ ns, t = .known ns → Instant.inRange ns = true := by
  obtain ⟨a, b, step, ha, hb, -, hne, rfl⟩ := Grid.build_ok h
  have hlt : a < b := by simpa [Instant.isAtMost, ha, hb] using horder
  intro t ht ns hns
  obtain ⟨x, hx, heq⟩ := List.mem_map.1 ht
  obtain rfl : x = ns := Instant.known.inj (heq.trans hns)
  have hbetween := Grid.counts_within hne hlt hx
  have hlow := hstart a ha
  have hhigh := hstop b hb
  simp only [Instant.inRange, decide_eq_true_eq] at hlow hhigh ⊢
  omega

/-- So do those of what a run reports. -/
theorem run_inRange {bs : List (Block α)} {o : Oracle α} {r : Report α} (h : run bs o c = .ok r) :
    (∀ p ∈ r.curve, ∀ ns, p.1 = .known ns → Instant.inRange ns = true) ∧
      ∀ x ∈ r.trades, ∀ ns, x.timestamp = .known ns → Instant.inRange ns = true := by
  obtain ⟨tokens, fetched, l, grid, s, hcourse, hreport⟩ := run_ok h
  obtain ⟨hcurve, htrades, -⟩ := report_ok hreport
  have hgrid := grid_inRange hstart hstop horder hcourse.divides
  have hopen : l.trades = [] := (openLedger_ok hcourse.opens fun _ => True).choose_spec.2.2
  obtain ⟨⟨⟨later, hlater, hpoints⟩, new, hnew, hstamps⟩, -⟩ := steps_ok (s := initialState l (neededTokens c tokens))
    (openLedger_reachable hcourse.opens) hcourse.ends
  constructor
  · intro p hp
    rw [hcurve, hlater, List.mem_reverse] at hp
    rcases List.mem_append.1 hp with hp | hp
    · exact hgrid _ (hpoints p hp)
    · cases hp
  · intro x hx
    rw [htrades, hnew] at hx
    rcases List.mem_append.1 hx with hx | hx
    · rw [show (initialState l (neededTokens c tokens)).ledger.trades = [] from hopen] at hx
      cases hx
    · exact hgrid _ (hstamps x hx)

end Simulation

end StrategyLab
