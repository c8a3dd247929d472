/-
Checks of a strategy before it is searched: kinds, amounts, target prices, conditions and target
allocations.
-/
import StrategyLab.Block.Params

namespace StrategyLab

/-- What is wrong with a block. -/
inductive Complaint where
  | noBlocks
  | unknownKind (kind : String)
  | amountNotPositive
  | targetPriceMissing
  | invalidCondition (text : String)
  | allocationMissing
  deriving Repr, DecidableEq, Inhabited

/-- A complaint about a block. -/
structure Issue where
  blockId : String
  complaint : Complaint
  deriving Repr, DecidableEq, Inhabited

namespace Complaint

/-- The text of a complaint. -/
def message : Complaint → String
  | noBlocks => "Strategy has no blocks"
  | unknownKind kind => "Unknown block kind: " ++ kind
  | amountNotPositive => "Amount must be greater than 0"
  | targetPriceMissing => "Target price required"
  | invalidCondition text => "Invalid condition: " ++ text
  | allocationMissing => "Target allocation required"

end Complaint

namespace Validation

variable {α : Type} [Scalar α]

/-- Whether a param holds or writes a positive number. A whole number out of range is a fault. -/
def isPositive (v : Option (Value α)) : Except (ValueFault α) Bool :=
  match (Value.ofOption v).toReal with
  | .ok x => .ok (decide (0.0 < x))
  | .error .tooLarge => .error .tooLarge
  | .error _ => .ok false

/-- Whether the condition of a block is known; the default one is. -/
def isKnownCondition (v : Option (Value α)) : Except (ValueFault α) Bool :=
  match v with
  | none => .ok true
  | some (.text s) => .ok (Comparator.ofSign? s).isSome
  | some (.list items) => .error (.notAKey (Value.list items).kindName)
  | some (.object fields) => .error (.notAKey (Value.object fields).kindName)
  | some _ => .ok false

/-- The complaints about a block of a kind. -/
def complaintsOf (kind : BlockKind) (b : Block α) :
    Except (ValueFault α) (List Complaint) := do
  let amountFails ←
    if kind.needsAmount then do
      let positive ← isPositive (b.param? "amount")
      pure (!positive)
    else pure false
  let targetFails ←
    if kind = .priceTrigger then do
      let positive ← isPositive (b.param? "target_price")
      pure (!positive)
    else pure false
  let conditionFails ←
    if kind.compares then do
      let known ← isKnownCondition (b.param? "condition")
      pure (!known)
    else pure false
  let allocationFails := kind = .rebalancing ∧
    ¬ (((b.param? "target_allocation").bind Value.fields?).any fun fields => !fields.isEmpty)
  pure
    ((if amountFails then [.amountNotPositive] else []) ++
     (if targetFails then [.targetPriceMissing] else []) ++
     (if conditionFails then
        [.invalidCondition (Value.ofOption (b.param? "condition")).shown] else []) ++
     (if allocationFails then [.allocationMissing] else []))

/-- The complaints about a block. -/
def complaints (b : Block α) : Except (ValueFault α) (List Complaint) :=
  match b.kind? with
  | none => .ok [.unknownKind b.kind]
  | some kind => complaintsOf kind b

/-- Everything that is wrong with a strategy. -/
def issues (blocks : List (Block α)) : Except (ValueFault α) (List Issue) :=
  if blocks.isEmpty then .ok [⟨"", .noBlocks⟩]
  else do
    let found ← blocks.mapM fun b => do
      let cs ← complaints b
      pure (cs.map fun c => Issue.mk b.id c)
    pure found.flatten

end Validation

end StrategyLab
