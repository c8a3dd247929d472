/-
Faults of a strategy's structure. What a block reads, and what it decides about a position, ends with no
fault of this kind, whatever the params, the market and the account are: such a fault comes from a kind
that is not in the catalogue, and from nothing else.
-/
import StrategyLab.Block.Execute
import StrategyLab.Proofs.Agree

namespace StrategyLab

variable {α β γ : Type} [Scalar α]

/-- A fault of the structure of a strategy. -/
def Fault.IsStructural : Fault α → Prop
  | .structural _ => True
  | _ => False

namespace Block

/-- The computation ends with a fault of the structure of a strategy. -/
def Structural (x : Except (Fault α) β) : Prop := ∃ f, x = .error f ∧ f.IsStructural

section

omit [Scalar α]

@[simp] theorem structural_ok (a : β) : ¬ Structural (.ok a : Except (Fault α) β) := nofun

@[simp] theorem structural_pure (a : β) : ¬ Structural (pure a : Except (Fault α) β) := nofun

@[simp] theorem structural_error (f : Fault α) : Structural (.error f : Except (Fault α) β) ↔ f.IsStructural := by
  constructor
  · rintro ⟨g, h, hg⟩
    cases h
    exact hg
  · exact fun h => ⟨f, rfl, h⟩

@[simp] theorem structural_throw (f : Fault α) : Structural (throw f : Except (Fault α) β) ↔ f.IsStructural :=
  structural_error f

@[simp] theorem structural_bind {x : Except (Fault α) β} {f : β → Except (Fault α) γ} :
    Structural (x >>= f) ↔ Structural x ∨ ∃ a, x = .ok a ∧ Structural (f a) := by
  cases x with
  | error e =>
    change Structural (.error e : Except (Fault α) γ) ↔ _
    simp
  | ok a =>
    change Structural (f a) ↔ _
    simp

theorem not_structural_bind {x : Except (Fault α) β} {f : β → Except (Fault α) γ} (hx : ¬ Structural x)
    (hf : ∀ a, ¬ Structural (f a)) : ¬ Structural (x >>= f) := by
  simp [hx, hf]

@[simp] theorem structural_map (f : β → γ) (x : Except (Fault α) β) : Structural (f <$> x) ↔ Structural x := by
  cases x with
  | error e => exact (structural_error e).trans (structural_error e).symm
  | ok a => exact iff_of_false (structural_ok _) (structural_ok _)

@[simp] theorem structural_ite {p : Prop} [Decidable p] (x y : Except (Fault α) β) :
    Structural (if p then x else y) ↔ (p ∧ Structural x) ∨ (¬ p ∧ Structural y) := by
  split_ifs with hp <;> simp [hp]

@[simp] theorem structural_value (x : Except (ValueFault α) β) : ¬ Structural (liftM x : Except (Fault α) β) := by
  rintro ⟨f, h, hf⟩
  cases x <;> cases h
  exact hf

@[simp] theorem structural_time (x : Except TimeFault β) : ¬ Structural (liftM x : Except (Fault α) β) := by
  rintro ⟨f, h, hf⟩
  cases x <;> cases h
  exact hf

@[simp] theorem structural_indicator (x : Except IndicatorFault β) :
    ¬ Structural (liftM x : Except (Fault α) β) := by
  rintro ⟨f, h, hf⟩
  cases x <;> cases h
  exact hf

end

attribute [local simp] Fault.IsStructural

/-! ## Params and prices -/

@[simp] theorem structural_text (b : Block α) (key : String) : ¬ Structural (b.text key) := by
  unfold text
  split <;> simp

@[simp] theorem structural_number (b : Block α) (key : String) (default : Option α) :
    ¬ Structural (b.number key default) := by
  unfold number
  split
  · cases default <;> simp
  · cases default <;> simp
  · cases default <;> simp
  · split <;> simp

@[simp] theorem structural_positive (b : Block α) (key : String) (default : Option α) :
    ¬ Structural (b.positive key default) := by
  unfold positive
  simp

@[simp] theorem structural_comparator (b : Block α) : ¬ Structural b.comparator := by
  unfold comparator
  dsimp only
  split <;> simp

@[simp] theorem structural_price (m : Market α) (token : String) : ¬ Structural (m.price token) := by
  unfold Market.price
  split <;> simp

@[simp] theorem structural_requireBalance (l : Ledger α) (token : String) (x : α) :
    ¬ Structural (l.requireBalance token x) := by
  unfold Ledger.requireBalance
  simp

@[simp] theorem structural_duration (x : α) :
    ¬ Structural (Duration.ofMilliseconds (.real x) : Except (Fault α) Int) := by
  unfold Duration.ofMilliseconds Duration.ofScalar Duration.ofNanoseconds
  dsimp only
  split <;> simp

/-! ## Requests -/

section

variable (b : Block α) (m : Market α) (l : Ledger α)

@[simp] theorem structural_assetAmount : ¬ Structural b.assetAmount := by
  unfold assetAmount
  simp

theorem structural_swapOrder (e : Exchange) : ¬ Structural (b.swapOrder e m l) := by
  unfold swapOrder
  simp

theorem structural_depositOrder (defaultRate : α) : ¬ Structural (b.depositOrder m l defaultRate) := by
  unfold depositOrder
  simp

theorem structural_borrowOrder (lender : Lender) : ¬ Structural (b.borrowOrder lender m l) := by
  unfold borrowOrder
  simp

theorem structural_repayOrder (lender : Lender) : ¬ Structural (b.repayOrder lender m l) := by
  unfold repayOrder
  refine not_structural_bind (structural_assetAmount b) fun ⟨asset, amount⟩ => ?_
  refine not_structural_bind (structural_requireBalance l asset amount) fun _ => ?_
  split <;> simp

theorem structural_withdrawOrder (lender : Lender) : ¬ Structural (b.withdrawOrder lender m l) := by
  unfold withdrawOrder
  refine not_structural_bind (structural_assetAmount b) fun ⟨asset, amount⟩ => ?_
  dsimp only
  split <;> simp

theorem structural_liquidityOrder : ¬ Structural (b.liquidityOrder m l) := by
  unfold liquidityOrder
  simp

theorem structural_flashLoanOrder : ¬ Structural (b.flashLoanOrder m l) := by
  unfold flashLoanOrder
  simp

/-! ## Entries and risk -/

theorem structural_priceTrigger : ¬ Structural (b.priceTrigger m) := by
  unfold priceTrigger
  simp

theorem structural_timeTrigger : ¬ Structural (b.timeTrigger m) := by
  unfold timeTrigger
  refine not_structural_bind (structural_text b _) fun schedule => ?_
  dsimp only
  split <;> simp

theorem structural_volumeTrigger : ¬ Structural (b.volumeTrigger m) := by
  unfold volumeTrigger
  simp

theorem structural_indicatorTrigger : ¬ Structural (b.indicatorTrigger m) := by
  unfold indicatorTrigger
  refine not_structural_bind (structural_text b _) fun asset => not_structural_bind (structural_text b _) fun name => ?_
  dsimp only
  split
  · rw [pure_bind]
    refine not_structural_bind (structural_number b _ _) fun target => ?_
    refine not_structural_bind (structural_positive b _ _) fun x => not_structural_bind (structural_value _) fun period => ?_
    refine not_structural_bind (structural_comparator b) fun op => ?_
    refine not_structural_bind (structural_price m asset) fun _ => ?_
    refine not_structural_bind (structural_indicator _) fun found => ?_
    split <;> simp
  · simp

theorem structural_positionSizing : ¬ Structural b.positionSizing := by
  unfold positionSizing
  refine not_structural_bind (structural_positive b _ _) fun value => ?_
  dsimp only
  split <;> simp

theorem structural_deviations (total threshold : α) (fields : List (Key α × Value α)) :
    ¬ Structural (deviations m l total threshold fields) := by
  induction fields with
  | nil =>
    unfold deviations
    simp
  | cons f rest ih =>
    obtain ⟨key, target⟩ := f
    unfold deviations
    simp [ih]

theorem structural_rebalancing : ¬ Structural (b.rebalancing m l) := by
  unfold rebalancing
  dsimp only
  split <;> simp [structural_deviations]

end

/-! ## Decisions about positions -/

theorem structural_changePercent (p : Position α) (price : α) : ¬ Structural (changePercent p price) := by
  unfold changePercent
  simp

theorem structural_atMarket {m : Market α} {condition : Position α → Num α → Except (Fault α) Bool}
    (hcondition : ∀ p price, ¬ Structural (condition p price)) (p : Position α) :
    ¬ Structural (atMarket m condition p) := by
  unfold atMarket
  split <;> simp [hcondition]

theorem structural_whenAged (m : Market α) (duration : Int) (p : Position α) :
    ¬ Structural (whenAged m duration p) := by
  unfold whenAged isAged
  refine not_structural_bind (not_structural_bind (structural_time _) fun age => ?_) fun isDue => structural_pure _
  split <;> simp

theorem structural_meets (c : ExitCondition α) (p : Position α) (price : Num α) : ¬ Structural (meets c p price) := by
  unfold meets
  cases c.measure <;> simp [structural_changePercent]

end Block

end StrategyLab
