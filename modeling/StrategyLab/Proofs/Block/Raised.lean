/-
Faults that are raised and not reported. A computation raises one if one of its parts does, once those
before it have given their results (`raises_bind`); what a block reads of its params raises a fault for a
whole number out of range and for nothing else, and of its steps on the account only a credit or a debit
of a negative amount does.
-/
import StrategyLab.Proofs.Block.Handler

open StrategyLab.Action

namespace StrategyLab

variable {α β γ : Type} [Scalar α]

/-- The sign of amounts, as far as blocks rely on it: a scalar that compares as negative is no amount, and
neither is the fee of one. -/
structure Scalar.Signed (α : Type) [Scalar α] : Prop where
  amount {x : α} : ¬ x ≤ 0.0 → (Num.real x).isLess (.whole 0) = false
  fee {x : α} : ¬ x ≤ 0.0 → (Num.real (x * Costs.flashLoanRate)).isLess (.whole 0) = false

/-- A number that is no window of an indicator over some prices. -/
def Indicator.Misfit (indicator : Indicator) (prices : List α) (window : Int) : Prop :=
  match indicator with
  | .strength => 2 ≤ prices.length ∧
      (window = 0 ∨ ¬ ((0.0 : α) < 1.0 / Scalar.ofInt window ∧ (1.0 : α) / Scalar.ofInt window ≤ 1.0))
  | .movingAverage => prices ≠ [] ∧ (window < 1 ∨ Int.pow 2 63 ≤ window)
  | .lowerBand | .convergence => False

theorem Indicator.value_fails_iff (indicator : Indicator) (prices : List α) (window : Int) :
    (∃ e, indicator.value prices window = .error e) ↔ indicator.Misfit prices window := by
  cases indicator with
  | strength =>
    unfold value Misfit relativeStrength
    dsimp only
    split_ifs with hshort hzero hshare hlevel
    · exact iff_of_false nofun fun h => by omega
    · exact iff_of_true ⟨_, rfl⟩ ⟨by omega, .inl hzero⟩
    · exact iff_of_false nofun fun h => h.2.elim hzero (not_not_intro hshare)
    · exact iff_of_false nofun fun h => h.2.elim hzero (not_not_intro hshare)
    · exact iff_of_true ⟨_, rfl⟩ ⟨by omega, .inr hshare⟩
  | movingAverage =>
    unfold value Misfit meanOfLast
    dsimp only
    split_ifs with hempty hlow hhigh
    · exact iff_of_false nofun fun h => h.1 (List.isEmpty_iff.1 hempty)
    · exact iff_of_true ⟨_, rfl⟩ ⟨mt List.isEmpty_iff.2 hempty, .inl hlow⟩
    · exact iff_of_true ⟨_, rfl⟩ ⟨mt List.isEmpty_iff.2 hempty, .inr hhigh⟩
    · exact iff_of_false nofun fun h => h.2.elim hlow hhigh
  | lowerBand => exact iff_of_false nofun not_false
  | convergence =>
    unfold value Misfit meanDistance
    dsimp only
    split_ifs
    · exact iff_of_false nofun not_false
    · -- both spans are windows
      refine iff_of_false ?_ not_false
      rintro ⟨e, he⟩
      cases he

/-- A number of milliseconds that is no duration. -/
def Duration.Misfit (milliseconds : α) : Prop :=
  ∀ ns, Scalar.wholePart? (milliseconds * 1000000.0) = some ns → Instant.inRange ns = false

namespace Block

/-- The computation ends with a fault that is not reported. -/
def Raises (x : Except (Fault α) β) : Prop := ∃ f, x = .error f ∧ reported? f = none

@[simp] theorem raises_ok (a : β) : ¬ Raises (.ok a : Except (Fault α) β) := nofun

@[simp] theorem raises_pure (a : β) : ¬ Raises (pure a : Except (Fault α) β) := nofun

@[simp] theorem raises_error (f : Fault α) : Raises (.error f : Except (Fault α) β) ↔ reported? f = none := by
  constructor
  · rintro ⟨g, h, hg⟩
    cases h
    exact hg
  · exact fun h => ⟨f, rfl, h⟩

@[simp] theorem raises_throw (f : Fault α) : Raises (throw f : Except (Fault α) β) ↔ reported? f = none :=
  raises_error f

@[simp] theorem reported?_rejected (cause : Rejection α) : reported? (.rejected cause) ≠ none := nofun

theorem raises_bind {x : Except (Fault α) β} {f : β → Except (Fault α) γ} :
    Raises (x >>= f) ↔ Raises x ∨ ∃ a, x = .ok a ∧ Raises (f a) := by
  cases x with
  | error e =>
    change Raises (.error e : Except (Fault α) γ) ↔ _
    simp
  | ok a =>
    change Raises (f a) ↔ _
    simp

@[simp] theorem raises_map (f : β → γ) (x : Except (Fault α) β) : Raises (f <$> x) ↔ Raises x := by
  cases x with
  | error e => exact (raises_error e).trans (raises_error e).symm
  | ok a => exact iff_of_false (raises_ok _) (raises_ok _)

theorem raises_bind_of_not {x : Except (Fault α) β} {f : β → Except (Fault α) γ} (hx : ¬ Raises x) :
    Raises (x >>= f) ↔ ∃ a, x = .ok a ∧ Raises (f a) := by
  rw [raises_bind, or_iff_right hx]

/-- A result that is asked for, but does not matter for what follows. -/
theorem exists_ok_and {ε : Type} {x : Except ε β} {P : β → Prop} {Q : Prop} (h : ∀ a, P a ↔ Q) :
    (∃ a, x = .ok a ∧ P a) ↔ (∃ a, x = .ok a) ∧ Q := by
  simp only [h, exists_and_right]

theorem raises_ite {p : Prop} [Decidable p] (x y : Except (Fault α) β) :
    Raises (if p then x else y) ↔ (p ∧ Raises x) ∨ (¬ p ∧ Raises y) := by
  split_ifs with hp <;> simp [hp]

/-- A value that cannot be read where it is not a block's own reading. -/
@[simp] theorem raises_value (x : Except (ValueFault α) β) :
    Raises (liftM x : Except (Fault α) β) ↔ ∃ e, x = .error e := by
  cases x with
  | error e => exact iff_of_true ((raises_error _).2 rfl) ⟨e, rfl⟩
  | ok a => exact iff_of_false (raises_ok a) nofun

@[simp] theorem raises_indicator (x : Except IndicatorFault β) :
    Raises (liftM x : Except (Fault α) β) ↔ ∃ e, x = .error e := by
  cases x with
  | error e => exact iff_of_true ((raises_error _).2 rfl) ⟨e, rfl⟩
  | ok a => exact iff_of_false (raises_ok a) nofun

theorem wholeOfNum_of_some {x : α} {n : Int} (h : Scalar.wholePart? x = some n) :
    Value.wholeOfNum (.real x) = .ok n := by
  simp only [Value.wholeOfNum, h]

theorem wholeOfNum_of_none {x : α} (h : Scalar.wholePart? x = none) : ∃ e, Value.wholeOfNum (.real x) = .error e := by
  simp only [Value.wholeOfNum, h]
  exact ⟨_, rfl⟩

theorem raises_wholeOfNum_bind (x : α) (f : Int → Except (Fault α) β) :
    Raises (liftM (Value.wholeOfNum (.real x)) >>= f) ↔
      Scalar.wholePart? x = none ∨ ∃ n, Scalar.wholePart? x = some n ∧ Raises (f n) := by
  cases h : Scalar.wholePart? x with
  | none =>
    obtain ⟨e, he⟩ := wholeOfNum_of_none h
    rw [he]
    exact iff_of_true ((raises_error _).2 rfl) (.inl rfl)
  | some n =>
    rw [wholeOfNum_of_some h]
    change Raises (f n) ↔ _
    simp

/-! ## Params -/

theorem toReal_text_ne (s : String) : (Value.text s : Value α).toReal ≠ .error .tooLarge := by
  unfold Value.toReal
  dsimp only
  split <;> (intro h; cases h)

/-- A param is a whole number out of range of the scalars. -/
def Oversized (b : Block α) (key : String) : Prop := ∃ v, b.param? key = some v ∧ v.toReal = .error .tooLarge

/-- Each of some params is a text that is not blank. -/
def Named (b : Block α) (keys : List String) : Prop := ∀ key ∈ keys, ∃ s, b.text key = .ok s

/-- A param is read as a number. -/
def Reads (b : Block α) (key : String) (default : Option α) : Prop := ∃ x, b.number key default = .ok x

/-- A param is read as a number that is neither negative nor zero. -/
def ReadsPositive (b : Block α) (key : String) (default : Option α) : Prop := ∃ x, b.positive key default = .ok x

theorem named_one (b : Block α) (key : String) : b.Named [key] ↔ ∃ s, b.text key = .ok s := by
  simp [Named]

theorem named_two (b : Block α) (key key' : String) :
    b.Named [key, key'] ↔ (∃ s, b.text key = .ok s) ∧ ∃ s, b.text key' = .ok s := by
  simp [Named]

@[simp] theorem raises_text (b : Block α) (key : String) : ¬ Raises (b.text key) := by
  unfold text
  split
  · simp
  · simp
  · split <;> simp

@[simp] theorem raises_number (b : Block α) (key : String) (default : Option α) :
    Raises (b.number key default) ↔ b.Oversized key := by
  have hempty : ∀ v, b.param? key = some v → v.toReal ≠ .error .tooLarge → ¬ b.Oversized key := by
    rintro v hv hsmall ⟨w, hw, hlarge⟩
    rw [hv] at hw
    cases hw
    exact hsmall hlarge
  unfold number
  split
  · rename_i hparam
    refine iff_of_false (by cases default <;> simp) ?_
    rintro ⟨v, hv, -⟩
    rw [hparam] at hv
    cases hv
  · rename_i hparam
    refine iff_of_false (by cases default <;> simp) (hempty _ hparam fun hnull => ?_)
    cases hnull
  · rename_i hparam
    exact iff_of_false (by cases default <;> simp) (hempty _ hparam (toReal_text_ne ""))
  · rename_i v _ _ hparam
    have hoversized : b.Oversized key ↔ v.toReal = .error .tooLarge := by
      unfold Oversized
      rw [hparam]
      simp
    rw [hoversized]
    split
    · rename_i x hx
      simp [hx]
    · rename_i hx
      simp [hx, reported?]
    · rename_i e hother hx
      simpa [hx] using hother

@[simp] theorem raises_positive (b : Block α) (key : String) (default : Option α) :
    Raises (b.positive key default) ↔ b.Oversized key := by
  unfold positive
  simp [raises_bind, raises_ite]

@[simp] theorem raises_comparator (b : Block α) : ¬ Raises b.comparator := by
  unfold comparator
  dsimp only
  split <;> simp

@[simp] theorem raises_price (m : Market α) (token : String) : ¬ Raises (m.price token) := by
  unfold Market.price
  split
  · split <;> simp
  · simp

@[simp] theorem raises_requireBalance (l : Ledger α) (token : String) (x : α) :
    ¬ Raises (l.requireBalance token x) := by
  unfold Ledger.requireBalance
  split
  · rw [raises_throw]
    nofun
  · simp

/-! ## Requests -/

section

variable (b : Block α) (m : Market α) (l : Ledger α)

theorem raises_assetAmount : Raises b.assetAmount ↔ b.Named ["asset"] ∧ b.Oversized "amount" := by
  unfold assetAmount
  simp only [raises_bind, raises_text, raises_positive, raises_pure, and_false, exists_false, or_false, false_or,
    named_one, exists_and_right]

/-- A request for an asset is read exactly if the asset is named and its amount is positive. -/
theorem exists_assetAmount : (∃ r, b.assetAmount = .ok r) ↔ b.Named ["asset"] ∧ b.ReadsPositive "amount" none := by
  rw [named_one]
  constructor
  · rintro ⟨⟨asset, amount⟩, h⟩
    obtain ⟨hasset, hamount⟩ := assetAmount_ok h
    exact ⟨⟨asset, hasset⟩, amount, hamount⟩
  · rintro ⟨⟨asset, hasset⟩, amount, hamount⟩
    refine ⟨(asset, amount), ?_⟩
    unfold assetAmount
    rw [hasset, hamount]
    rfl

theorem raises_swapOrder (e : Exchange) : Raises (b.swapOrder e m l) ↔
    b.Named ["input_token", "output_token"] ∧ (b.Oversized "amount" ∨
      b.ReadsPositive "amount" none ∧ b.Oversized "slippage") := by
  unfold swapOrder
  simp only [raises_bind, raises_text, raises_positive, raises_number, raises_ite, raises_throw, reported?_rejected,
    raises_requireBalance, raises_price, raises_pure, and_false, exists_false, or_false, false_or,
    exists_and_right, named_two, ReadsPositive, and_assoc]

/-- What makes a request for an asset raise a fault, when a rate is read after it. -/
def OversizedTerms : Prop :=
  b.Named ["asset"] ∧ (b.Oversized "amount" ∨ b.ReadsPositive "amount" none ∧ b.Oversized "apy")

theorem raises_terms {β : Type} {default : Option α} {f : String × α → α → Except (Fault α) β}
    (hf : ∀ r x, ¬ Raises (f r x)) : Raises (do
      let r ← b.assetAmount
      let rate ← b.number "apy" default
      f r rate) ↔ b.OversizedTerms := by
  simp only [raises_bind, raises_assetAmount, raises_number, hf, and_false, exists_false, or_false, exists_and_right,
    exists_assetAmount, OversizedTerms, and_or_left, and_assoc]

theorem raises_depositOrder (defaultRate : α) : Raises (b.depositOrder m l defaultRate) ↔ b.OversizedTerms := by
  refine raises_terms b fun r x => ?_
  simp [raises_bind]

theorem raises_borrowOrder (lender : Lender) : Raises (b.borrowOrder lender m l) ↔ b.OversizedTerms := by
  refine raises_terms b fun r x => ?_
  simp [raises_bind, raises_ite, reported?, LedgerFault.isRefusal]

theorem raises_repayOrder (lender : Lender) : Raises (b.repayOrder lender m l) ↔
    b.Named ["asset"] ∧ b.Oversized "amount" := by
  unfold repayOrder
  rw [raises_bind, raises_assetAmount, or_iff_left]
  rintro ⟨r, -, h⟩
  obtain ⟨u, -, h⟩ := (raises_bind.1 h).resolve_left (raises_requireBalance _ _ _)
  split at h <;> simp [reported?, LedgerFault.isRefusal] at h

theorem raises_withdrawOrder (lender : Lender) : Raises (b.withdrawOrder lender m l) ↔
    b.Named ["asset"] ∧ b.Oversized "amount" := by
  unfold withdrawOrder
  rw [raises_bind, raises_assetAmount, or_iff_left]
  rintro ⟨r, -, h⟩
  dsimp only at h
  split at h <;> simp [reported?, LedgerFault.isRefusal] at h

theorem raises_liquidityOrder : Raises (b.liquidityOrder m l) ↔ b.Named ["token0", "token1"] ∧
    (b.Oversized "amount0" ∨ b.Reads "amount0" (some 0.0) ∧ b.Oversized "amount1") := by
  unfold liquidityOrder
  simp only [raises_bind, raises_text, raises_number, raises_ite, raises_throw, reported?_rejected,
    raises_requireBalance, raises_price, raises_pure, and_false, exists_false, or_false, false_or,
    exists_and_right, named_two, Reads, and_assoc]

theorem raises_flashLoanOrder : Raises (b.flashLoanOrder m l) ↔ b.Named ["asset"] ∧ b.Oversized "amount" := by
  unfold flashLoanOrder
  rw [raises_bind, raises_assetAmount, or_iff_left]
  rintro ⟨r, -, h⟩
  simp [raises_bind] at h

/-! ## Entries and risk -/

theorem raises_priceTrigger : Raises (b.priceTrigger m) ↔ b.Named ["asset"] ∧ b.Oversized "target_price" := by
  unfold priceTrigger
  simp only [raises_bind, raises_text, raises_positive, raises_comparator, raises_price, raises_ite, raises_pure,
    and_false, exists_false, or_false, false_or, exists_and_right, named_one]

theorem raises_timeTrigger : Raises (b.timeTrigger m) ↔
    ∃ schedule, b.text "schedule" = .ok schedule ∧ Cron.holds schedule m.timestamp = .error .zeroStep := by
  unfold timeTrigger
  simp only [raises_bind, raises_text, false_or]
  refine exists_congr fun schedule => and_congr_right fun _ => ?_
  split
  · rename_i h
    simp [h]
  · rename_i h
    simp [h]
  · rename_i h
    simp [h, reported?]
  · rename_i cause hcause h
    simpa [h] using hcause

theorem raises_volumeTrigger : Raises (b.volumeTrigger m) ↔ b.Named ["asset"] ∧ b.Oversized "min_volume" := by
  unfold volumeTrigger
  simp only [raises_bind, raises_text, raises_number, raises_price, raises_ite, raises_pure, and_false, exists_false,
    or_false, false_or, exists_and_right, named_one]

/-- The largest position that a block writes cannot be read as a number. -/
def UnreadableLimit : Prop := ∃ v, b.param? "max_position" = some v ∧ v ≠ .null ∧ ∃ e, v.toReal = .error e

theorem raises_positionSizing : Raises b.positionSizing ↔
    b.Oversized "value" ∨ b.ReadsPositive "value" (some 10.0) ∧ b.UnreadableLimit := by
  unfold positionSizing
  rw [raises_bind, raises_positive]
  refine or_congr_right (exists_ok_and fun value => ?_)
  unfold UnreadableLimit
  split
  · rename_i h
    simp [h]
  · rename_i h
    simp [h]
  · rename_i v hnull h
    have hsome : v ≠ .null := hnull
    simp [h, hsome]

theorem raises_deviations (total threshold : α) (fields : List (Key α × Value α)) :
    Raises (deviations m l total threshold fields) ↔ ∃ f ∈ fields, ∃ e, f.2.toReal = .error e := by
  induction fields with
  | nil =>
    unfold deviations
    simp
  | cons f rest ih =>
    obtain ⟨key, target⟩ := f
    unfold deviations
    rw [raises_bind, raises_value]
    simp only [List.mem_cons, exists_eq_or_imp, ← ih]
    cases htarget : target.toReal with
    | error e => simp
    | ok x =>
      -- with a target that can be read the rest decides
      refine or_congr_right ?_
      constructor
      · rintro ⟨y, -, h⟩
        rw [raises_bind] at h
        rcases h with h | ⟨more, -, h⟩
        · exact h
        · simp [raises_ite] at h
      · intro h
        exact ⟨x, rfl, raises_bind.2 (.inl h)⟩

theorem raises_rebalancing : Raises (b.rebalancing m l) ↔
    ∃ fields, b.param? "target_allocation" = some (.object fields) ∧ fields ≠ [] ∧
      (b.Oversized "threshold" ∨ b.Reads "threshold" (some 5.0) ∧ ¬ l.equity m.prices ≤ 0.0 ∧
        ∃ f ∈ fields, ∃ e, f.2.toReal = .error e) := by
  unfold rebalancing
  dsimp only
  split
  · rename_i fields h
    simp only [h, Option.some.injEq, Value.object.injEq, exists_eq_left']
    cases hempty : fields.isEmpty with
    | true => simp [raises_bind, List.isEmpty_iff.1 hempty]
    | false =>
      have hsome : fields ≠ [] := by
        rintro rfl
        cases hempty
      rw [if_neg Bool.false_ne_true, pure_bind, raises_bind, raises_number, and_iff_right hsome]
      refine or_congr_right (exists_ok_and fun threshold => ?_)
      simp only [raises_ite, raises_bind, raises_pure, raises_deviations, and_false, or_false, exists_false, false_or]
  · rename_i h
    refine iff_of_false (by simp [raises_bind]) ?_
    rintro ⟨fields, hfields, -⟩
    exact h fields hfields

theorem raises_indicatorTrigger : Raises (b.indicatorTrigger m) ↔
    ∃ asset, b.text "asset" = .ok asset ∧ ∃ name, b.text "indicator" = .ok name ∧
      ∃ indicator, Indicator.ofName? (Text.upper name) = some indicator ∧
        (b.Oversized "value" ∨ b.Reads "value" none ∧ (b.Oversized "period" ∨
          ∃ period, b.positive "period" (some 14.0) = .ok period ∧ (Scalar.wholePart? period = none ∨
            ∃ window, Scalar.wholePart? period = some window ∧ (∃ op, b.comparator = .ok op) ∧
              (∃ price, m.price asset = .ok price) ∧
              indicator.Misfit ((m.history.lookup asset).getD []) window))) := by
  unfold indicatorTrigger
  rw [raises_bind_of_not (raises_text b _)]
  refine exists_congr fun asset => and_congr_right fun _ => ?_
  rw [raises_bind_of_not (raises_text b _)]
  refine exists_congr fun name => and_congr_right fun _ => ?_
  dsimp only
  split
  · rename_i indicator hname
    simp only [hname, Option.some.injEq, exists_eq_left']
    rw [pure_bind, raises_bind, raises_number]
    refine or_congr_right (exists_ok_and fun target => ?_)
    rw [raises_bind, raises_positive]
    refine or_congr_right (exists_congr fun period => and_congr_right fun _ => ?_)
    rw [raises_wholeOfNum_bind]
    refine or_congr_right (exists_congr fun window => and_congr_right fun _ => ?_)
    rw [raises_bind_of_not (raises_comparator b)]
    refine exists_ok_and fun op => ?_
    rw [raises_bind_of_not (raises_price m asset)]
    refine exists_ok_and fun price => ?_
    rw [raises_bind, raises_indicator, Indicator.value_fails_iff, or_iff_left]
    rintro ⟨found, -, h⟩
    split at h <;> simp [raises_ite] at h
  · rename_i hname
    simp [hname, raises_bind]

end

end Block

end StrategyLab
