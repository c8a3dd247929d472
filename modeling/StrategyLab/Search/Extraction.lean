/-
The parameters that a strategy offers to a search: amounts and target prices around their present
values, and slippage and exit percentages in fixed ranges. The most important ones come first.
-/
import StrategyLab.Block.Kind
import StrategyLab.Search.Assignment

namespace StrategyLab

/-- The first items of a list; a negative count leaves out that many at the end. -/
def firstItems {β : Type} (count : Int) (items : List β) : List β :=
  if 0 ≤ count then items.take count.toNat else items.take (items.length - count.natAbs)

namespace Parameter

variable {α : Type} [Scalar α]

/-- How the range of an offered parameter comes about. -/
inductive Span (α : Type) where
  /-- Multiples of the present value. -/
  | around (low high : α)
  /-- A fixed range. -/
  | fixed (kind : ParameterKind) (low high : α)

/-- The names of the params that a block offers, with their ranges. -/
def offers (b : Block α) : List (String × Span α) :=
  match b.kind? with
  | some (.swap _) => [("slippage", .fixed .continuous 0.1 2.0), ("amount", .around 0.5 1.5)]
  | some (.supply _) | some .staking => [("amount", .around 0.5 1.5)]
  | some .priceTrigger => [("target_price", .around 0.8 1.2)]
  | some .stopLoss => [("percentage", .fixed .percentage 1.0 20.0)]
  | some .takeProfit => [("percentage", .fixed .percentage 5.0 50.0)]
  | _ => []

/-- The parameter of an offered param with a present value. -/
def ofOffer (b : Block α) (name : String) (span : Span α) (present : α) : Parameter α :=
  let (kind, low, high) := match span with
    | .around low high => (ParameterKind.continuous, present * low, present * high)
    | .fixed kind low high => (kind, low, high)
  { blockId := b.id, blockKind := b.kind, name, kind, low := some (.real low)
    high := some (.real high), values := none, default := .real present }

/-- The parameters that a block offers: those of its offers that have a value. -/
def ofBlock (b : Block α) : Except (ValueFault α) (List (Parameter α)) :=
  (offers b).filterMapM fun (name, span) =>
    match b.param? name with
    | none | some .null => pure none
    | some v => do
      let present ← v.toReal
      pure (some (ofOffer b name span present))

/-- The rank of a parameter; smaller ones come first. -/
def rank (p : Parameter α) : Nat :=
  if p.name = "percentage" then 1
  else if p.name = "target_price" then 2
  else if p.name = "slippage" then 3
  else if p.name = "amount" then 4
  else 10

/-- How many parameters a search has unless told otherwise. -/
def defaultLimit : Int := 10

/-- The parameters that a strategy offers, the most important ones first. -/
def ofBlocks (blocks : List (Block α)) (limit : Int) :
    Except (ValueFault α) (List (Parameter α)) := do
  let found ← blocks.mapM ofBlock
  pure (firstItems limit (found.flatten.mergeSort fun p q => p.rank ≤ q.rank))

end Parameter

end StrategyLab
