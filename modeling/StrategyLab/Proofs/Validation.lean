/-
The checks before a search are sound for the execution of blocks. The checks and the blocks read the same
params in ways of their own; a block that the checks find nothing wrong with reads its amount, its target
price, its condition and its target allocation, whatever values stand there, and never ends with a fault of
the strategy's structure (`valid_executes`).
-/
import StrategyLab.Proofs.Block.Alike
import StrategyLab.Proofs.Block.Tokens
import StrategyLab.Validation

open StrategyLab.Action

namespace StrategyLab

variable {α : Type} [Scalar α]

/-! ## Two readings of a param -/

namespace Validation

theorem isPositive_ok {v : Option (Value α)} (h : isPositive v = .ok true) :
    ∃ x, (Value.ofOption v).toReal = .ok x ∧ (0.0 : α) < x := by
  unfold isPositive at h
  split at h
  · rename_i x hx
    cases hpos : decide ((0.0 : α) < x) with
    | true => exact ⟨x, hx, of_decide_eq_true hpos⟩
    | false => rw [hpos] at h; cases h
  · cases h
  · cases h

omit [Scalar α] in
theorem isKnownCondition_ok {v : Option (Value α)} (h : isKnownCondition v = .ok true) :
    v = none ∨ ∃ s, v = some (.text s) ∧ (Comparator.ofSign? s).isSome = true := by
  unfold isKnownCondition at h
  split at h
  · exact .inl rfl
  · rename_i s
    exact .inr ⟨s, rfl, Except.ok.inj h⟩
  all_goals cases h

end Validation

namespace Block

variable {b : Block α}

theorem toReal_empty (x : α) : (Value.text "" : Value α).toReal ≠ .ok x := by
  intro h
  have hnone : (Numeral.real? "" : Option α) = none := rfl
  simp only [Value.toReal, hnone, reduceCtorEq] at h

/-- A param that is a number for the checks is that number for the block. -/
theorem number_of_toReal {key : String} {x : α} (h : (Value.ofOption (b.param? key)).toReal = .ok x)
    (default : Option α) : b.number key default = .ok x := by
  unfold number
  split
  · rename_i hparam; rw [hparam] at h; cases h
  · rename_i hparam; rw [hparam] at h; cases h
  · rename_i hparam; rw [hparam] at h; exact absurd h (toReal_empty x)
  · rename_i v _ _ hparam
    rw [hparam] at h
    rw [show v.toReal = .ok x from h]
    rfl

theorem positive_of_isPositive (hα : ∀ x : α, 0.0 < x → ¬ x ≤ 0.0) {key : String}
    (h : Validation.isPositive (b.param? key) = .ok true) : ∃ x, b.positive key none = .ok x := by
  obtain ⟨x, hx, hpos⟩ := Validation.isPositive_ok h
  refine ⟨x, ?_⟩
  unfold positive
  rw [number_of_toReal hx none]
  exact if_neg (hα x hpos)

theorem comparator_of_isKnown (h : Validation.isKnownCondition (b.param? "condition") = .ok true) :
    ∃ op, b.comparator = .ok op := by
  rcases Validation.isKnownCondition_ok h with hnone | ⟨s, hs, hsign⟩
  · refine ⟨.atLeast, ?_⟩
    unfold comparator
    rw [hnone]
    rfl
  · obtain ⟨op, hop⟩ := Option.isSome_iff_exists.1 hsign
    refine ⟨op, ?_⟩
    unfold comparator
    simp only [hs, Value.shown, hop]
    rfl

/-! ## Blocks that pass the checks -/

/-- What a block of a kind can rely on when its handler reads it. -/
structure Fit (b : Block α) (kind : BlockKind) : Prop where
  amount : kind.needsAmount = true → ∃ x, b.positive "amount" none = .ok x
  target : kind = .priceTrigger → ∃ x, b.positive "target_price" none = .ok x
  condition : kind.compares = true → ∃ op, b.comparator = .ok op
  allocation : kind = .rebalancing →
    ∃ fields, b.param? "target_allocation" = some (.object fields) ∧ fields.isEmpty = false

end Block

namespace Validation

variable {b : Block α}

omit [Scalar α] in
/-- A check that is made under a condition, and what goes on with whether it fails. -/
theorem check_ok {γ : Type} {p : Prop} [Decidable p] {found : Except (ValueFault α) Bool}
    {next : Bool → Except (ValueFault α) γ} {c : γ}
    (h : (if p then (do let holds ← found; let fails ← pure (!holds); next fails)
      else (do let fails ← pure false; next fails)) = .ok c) :
    ∃ fails, (p → fails = false → found = .ok true) ∧ next fails = .ok c := by
  split at h
  · obtain ⟨holds, hholds, h⟩ := bind_ok h
    refine ⟨!holds, fun _ hfails => ?_, h⟩
    rw [hholds, (Bool.not_eq_false' holds).mp hfails]
  · rename_i hp
    exact ⟨false, fun h => absurd h hp, h⟩

omit [Scalar α] in
theorem object_of_any {v : Option (Value α)} (h : (v.bind Value.fields?).any (fun fields => !fields.isEmpty) = true) :
    ∃ fields, v = some (.object fields) ∧ fields.isEmpty = false := by
  obtain ⟨fields, hfields, hsome⟩ := (Option.any_eq_true _ _).1 h
  obtain ⟨w, rfl, hw⟩ := Option.bind_eq_some_iff.1 hfields
  cases w <;> cases hw
  exact ⟨fields, rfl, (Bool.not_eq_true' _).mp hsome⟩

/-- A block without complaints reads what its kind needs. -/
theorem fit_of_complaintsOf (hα : ∀ x : α, 0.0 < x → ¬ x ≤ 0.0) {kind : BlockKind}
    (h : complaintsOf kind b = .ok []) : b.Fit kind := by
  unfold complaintsOf at h
  dsimp only at h
  obtain ⟨amountFails, hamount, h⟩ := check_ok h
  obtain ⟨targetFails, htarget, h⟩ := check_ok h
  obtain ⟨conditionFails, hcondition, h⟩ := check_ok h
  have hnone := Except.ok.inj h
  simp only [List.append_eq_nil_iff, ite_eq_right_iff, reduceCtorEq, imp_false, Bool.not_eq_true] at hnone
  obtain ⟨⟨⟨hamountFails, htargetFails⟩, hconditionFails⟩, hallocation⟩ := hnone
  refine ⟨fun hk => Block.positive_of_isPositive hα (hamount hk hamountFails),
    fun hk => Block.positive_of_isPositive hα (htarget hk htargetFails),
    fun hk => Block.comparator_of_isKnown (hcondition hk hconditionFails), fun hk => ?_⟩
  exact object_of_any (by_contra fun hany => hallocation ⟨hk, Bool.not_eq_true _ ▸ hany⟩)

/-! ## Strategies that pass the checks -/

/-- There are no complaints about the blocks of a strategy with which nothing is wrong. -/
theorem complaints_of_issues {blocks : List (Block α)} (h : issues blocks = .ok []) (hb : b ∈ blocks) :
    complaints b = .ok [] := by
  unfold issues at h
  split at h
  · cases h
  · obtain ⟨found, hfound, h⟩ := bind_ok h
    obtain ⟨own, hown, hb⟩ := mapM_ok_mem hfound b hb
    obtain ⟨cs, hcs, hb⟩ := bind_ok hb
    cases hb
    have hnone : cs = [] := List.map_eq_nil_iff.1 (List.flatten_eq_nil_iff.1 (Except.ok.inj h) _ hown)
    rw [hcs, hnone]

/-- A block without complaints is of a kind of the catalogue. -/
theorem fit_of_complaints (hα : ∀ x : α, 0.0 < x → ¬ x ≤ 0.0) (h : complaints b = .ok []) :
    ∃ kind, b.kind? = some kind ∧ b.Fit kind := by
  unfold complaints at h
  cases hk : b.kind? with
  | none =>
    rw [hk] at h
    cases h
  | some kind =>
    rw [hk] at h
    exact ⟨kind, rfl, fit_of_complaintsOf hα h⟩

end Validation

namespace Block

variable {b : Block α}

/-! ## Refusals of a rebalancing -/

/-- A number with a default is refused for what is written there, or is a whole number out of range. -/
theorem number_error {key : String} {x : α} {f : Fault α} (h : b.number key (some x) = .error f) :
    (∃ v, b.param? key = some v ∧ f = .rejected (.invalidValue b.displayName key v)) ∨ f = .value .tooLarge := by
  unfold number at h
  split at h
  · cases h
  · cases h
  · cases h
  · rename_i v _ _ hparam
    split at h
    · cases h
    · cases h
      exact .inr rfl
    · cases h
      exact .inl ⟨v, hparam, rfl⟩

/-- What comes of a rebalancing with an allocation: an answer, a refusal of the threshold, or a fault of a
number that cannot be read. -/
theorem rebalancing_cases {fields : Object α} (hobject : b.param? "target_allocation" = some (.object fields))
    (hsome : fields.isEmpty = false) (m : Market α) (l : Ledger α) :
    (∃ o : Outcome α, b.rebalancing m l = .ok o ∧ o.ok = true) ∨
    (∃ v, b.param? "threshold" = some v ∧
      b.rebalancing m l = .error (.rejected (.invalidValue b.displayName "threshold" v))) ∨
    ∃ cause, b.rebalancing m l = .error (.value cause) := by
  unfold rebalancing
  dsimp only
  rw [hobject]
  dsimp only
  rw [if_neg (Bool.not_eq_true _ ▸ hsome), pure_bind]
  cases hnumber : b.number "threshold" (some 5.0) with
  | error f =>
    rcases number_error hnumber with ⟨v, hv, rfl⟩ | rfl
    · exact .inr (.inl ⟨v, hv, rfl⟩)
    · exact .inr (.inr ⟨_, rfl⟩)
  | ok threshold =>
    rw [show ∀ f : α → Except (Fault α) (Outcome α), (Except.ok threshold >>= f) = f threshold from fun _ => rfl]
    split
    · exact .inl ⟨_, rfl, rfl⟩
    · rcases deviations_cases m l (l.equity m.prices) threshold fields with ⟨found, hfound, -⟩ | ⟨fault, hfault, -⟩
      · rw [hfound]
        left
        change ∃ o : Outcome α, (if found.isEmpty = true then _ else _) = _ ∧ _
        split <;> exact ⟨_, rfl, rfl⟩
      · rw [hfault]
        exact .inr (.inr ⟨fault, rfl⟩)

/-- With an allocation to read only the threshold gets a rebalancing refused. -/
theorem rebalancing_failed (hk : b.kind? = some .rebalancing) {fields : Object α}
    (hobject : b.param? "target_allocation" = some (.object fields)) (hsome : fields.isEmpty = false) {m : Market α}
    {l : Ledger α} {o : Outcome α} (h : (b.execute m l).1 = .ok o) (ho : o.ok = false) :
    ∃ v, b.param? "threshold" = some v ∧
      o.message = (Rejection.invalidValue b.displayName "threshold" v).message := by
  have heval : eval (b.act .rebalancing m) l = (b.rebalancing m l, l) :=
    (eval_bind_of_ok (eval_get l)).trans (eval_lift _ l)
  rw [execute_eq hk, heval] at h
  rcases rebalancing_cases hobject hsome m l with ⟨o', hr, ho'⟩ | ⟨v, hv, hr⟩ | ⟨cause, hr⟩
  · rw [hr] at h
    cases h
    rw [ho] at ho'
    cases ho'
  · rw [hr] at h
    cases h
    exact ⟨v, hv, rfl⟩
  · rw [hr] at h
    cases h

end Block

namespace Validation

/-! ## Execution -/

/-- No block of a strategy that the checks find nothing wrong with ends with a fault of the strategy's
structure, and none is refused for what the checks looked at: the amount and the target price are read as
numbers that are not zero or negative, the condition as a comparator, and a rebalancing that is refused is
refused for its threshold. -/
theorem valid_executes (hα : ∀ x : α, 0.0 < x → ¬ x ≤ 0.0) {blocks : List (Block α)} (hvalid : issues blocks = .ok [])
    {b : Block α} (hb : b ∈ blocks) :
    (∀ m l, ¬ Block.Structural (b.execute m l).1) ∧
    ∃ kind, b.kind? = some kind ∧
      (kind.needsAmount = true → ∃ x, b.positive "amount" none = .ok x) ∧
      (kind = .priceTrigger → ∃ x, b.positive "target_price" none = .ok x) ∧
      (kind.compares = true → ∃ op, b.comparator = .ok op) ∧
      (kind = .rebalancing → ∀ m l o, (b.execute m l).1 = .ok o → o.ok = false →
        ∃ v, b.param? "threshold" = some v ∧
          o.message = (Rejection.invalidValue b.displayName "threshold" v).message) := by
  obtain ⟨kind, hk, hfit⟩ := fit_of_complaints hα (complaints_of_issues hvalid hb)
  refine ⟨b.execute_ordinary hk, kind, hk, hfit.amount, hfit.target, hfit.condition, ?_⟩
  rintro rfl m l o h ho
  obtain ⟨fields, hobject, hsome⟩ := hfit.allocation rfl
  exact Block.rebalancing_failed hk hobject hsome h ho

section

local instance openPartsOfChecks : ExactArithmetic := default

/-- A price, an amount and a share of a portfolio, each in a form of its own. -/
def variedForms : List (Block ℚ) :=
  [{ id := "t", kind := "price_trigger", category := .entry, label := "",
     params := [(.text "asset", .text "ETH"), (.text "target_price", .truth true)] },
   { id := "s", kind := "uniswap_swap", category := .protocol, label := "",
     params := [(.text "input_token", .text "USDC"), (.text "output_token", .text "ETH"),
       (.text "amount", .text " 1_0.5 ")] },
   { id := "r", kind := "rebalancing", category := .risk, label := "",
     params := [(.text "target_allocation", .object [(.text "ETH", .num (.whole 50))]),
       (.text "threshold", .text "five")] }]

/-- Neither a price written as a truth value nor an amount with blanks and an underscore ends a block with a
fault of the strategy's structure. -/
theorem variedForms_executes : (∀ x : ℚ, 0.0 < x → ¬ x ≤ 0.0) ∧ issues variedForms = .ok [] ∧
    ∀ b ∈ variedForms, ∀ m l, ¬ Block.Structural (b.execute m l).1 :=
  have hα : ∀ x : ℚ, 0.0 < x → ¬ x ≤ 0.0 := fun _ => not_le.2
  have hvalid : issues variedForms = .ok [] := by
    obtain ⟨found, hfound, rfl⟩ := ok_of_toOption
      (show (issues variedForms).toOption.map id = some [] by decide +kernel)
    exact hfound
  ⟨hα, hvalid, fun _ hb => (valid_executes hα hvalid hb).1⟩

end

end Validation

end StrategyLab
