/-
What executing a block answers, and the steps on the account that blocks are made of. A fault
ends a block where it is; the account keeps the steps made before it.
-/
import StrategyLab.Block.Params
import StrategyLab.Costs

namespace StrategyLab

/-- The report on one executed block. -/
structure Outcome (α : Type) where
  /-- Neither rejected nor refused. -/
  ok : Bool
  /-- It did what it is for. -/
  fired : Bool
  message : String
  payload : List (String × Value α)
  deriving Repr, Inhabited

namespace Outcome

variable {α : Type}

/-- The block did what it is for. -/
def didFire (message : String) (payload : List (String × Value α)) : Outcome α :=
  { ok := true, fired := true, message, payload }

/-- The block found nothing to do. -/
def idle (message : String) (payload : List (String × Value α)) : Outcome α :=
  { ok := true, fired := false, message, payload }

/-- The block could not be executed. -/
def failed (message : String) : Outcome α := { ok := false, fired := false, message, payload := [] }

/-- The written form of an outcome. -/
def toValue (o : Outcome α) : Value α :=
  .record [("ok", .truth o.ok), ("fired", .truth o.fired), ("message", .text o.message),
    ("payload", .record o.payload)]

end Outcome

/-- A computation on an account that may end with a fault. -/
abbrev Action (α β : Type) := ExceptT (Fault α) (StateM (Ledger α)) β

namespace Action

variable {α : Type} [Scalar α]

/-- Changes the account, or ends with the reason why it refuses. -/
def change (f : Ledger α → Except (LedgerFault α) (Ledger α)) : Action α Unit := do
  match f (← get) with
  | .ok l => set l
  | .error cause => throw (.ledger cause)

/-- Adds an amount to a balance. -/
def credit (token : String) (amount : α) : Action α Unit := change (·.credit token (.real amount))

/-- Takes an amount from a balance. -/
def debit (token : String) (amount : α) : Action α Unit := change (·.debit token (.real amount))

/-- Opens a position; answers its name. -/
def openPosition (p : Ledger.NewPosition α) : Action α String := do
  let l ← get
  set (l.openPosition p)
  pure (l.nextOpened p).id

/-- Closes a position. -/
def closePosition (id : String) : Action α Unit :=
  change fun l => (l.closePosition id).map (·.2)

/-- Takes an amount from a position; answers what is left of it. -/
def reducePosition (id : String) (amount : α) : Action α α := do
  match (← get).reducePosition id (.real amount) with
  | .ok (p, l) => set l; pure p.amount
  | .error cause => throw (.ledger cause)

/-- Records a trade. -/
def record (t : Ledger.NewTrade α) : Action α Unit := modify (·.recordTrade t)

/-- Records a trade that moves one token. -/
def recordSingle (m : Market α) (kind : TradeKind) (token : String) (amount price fees : α) :
    Action α Unit :=
  record
    { timestamp := m.timestamp, kind, inputToken := token, inputAmount := amount, price, fees,
      gas := Costs.gas kind price, outputToken := none, outputAmount := none, slippage := none }

end Action

namespace Ledger

variable {α : Type} [Scalar α]

/-- Makes sure that a balance covers an amount. -/
def requireBalance (l : Ledger α) (token : String) (amount : α) : Except (Fault α) Unit :=
  if l.balance token < amount then
    throw (.ledger (.insufficientBalance token (l.balance token) (.real amount)))
  else pure ()

end Ledger

end StrategyLab
