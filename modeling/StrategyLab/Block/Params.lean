/-
Reading the params of a block and the market around it. What is missing or unfit rejects the
block; only a whole number out of range is a fault of its own.
-/
import StrategyLab.Block.Basic
import StrategyLab.Ledger.Account
import StrategyLab.Number.Decimal

namespace StrategyLab

/-- What a block sees besides the account: the instant, the prices at it, and the prices so far,
the latest last. -/
structure Market (α : Type) where
  timestamp : Instant
  prices : Quotes α
  history : List (String × List α)
  deriving Repr, Inhabited

/-- How a value is compared with a target. -/
inductive Comparator where
  | atLeast
  | atMost
  | above
  | below
  /-- Equal up to a hundredth. -/
  | near
  deriving Repr, DecidableEq, Inhabited

namespace Comparator

/-- The written sign. -/
def sign : Comparator → String
  | atLeast => ">="
  | atMost => "<="
  | above => ">"
  | below => "<"
  | near => "=="

/-- The comparator with a sign. -/
def ofSign? (s : String) : Option Comparator :=
  [atLeast, atMost, above, below, near].find? (·.sign == s)

/-- The comparison of a value with a target. -/
def holds {α : Type} [Scalar α] (op : Comparator) (x y : Num α) : Bool :=
  match op with
  | atLeast => y.isAtMost x
  | atMost => x.isAtMost y
  | above => y.isLess x
  | below => x.isLess y
  | near => decide (Scalar.magnitude (x.value - y.value) < 0.01)

end Comparator

namespace Market

variable {α : Type} [Scalar α]

/-- The price of a token that has a positive one. -/
def price (m : Market α) (token : String) : Except (Fault α) (Num α) :=
  match m.prices.lookup token with
  | some p =>
    if p.isAtMost (.whole 0) then throw (.rejected (.missingPrice token)) else pure p
  | none => throw (.rejected (.missingPrice token))

end Market

namespace Block

variable {α : Type} [Scalar α]

/-- A param as text that is not blank. -/
def text (b : Block α) (key : String) : Except (Fault α) String :=
  match b.param? key with
  | some .null | none => throw (.rejected (.missingParameter b.displayName key))
  | some v =>
    if Text.isBlankText v.shown then throw (.rejected (.missingParameter b.displayName key))
    else pure v.shown

/-- A param as a number; a default stands in for a missing or empty one. -/
def number (b : Block α) (key : String) (default : Option α) : Except (Fault α) α :=
  match b.param? key with
  | none | some .null | some (.text "") =>
    match default with
    | some x => pure x
    | none => throw (.rejected (.missingParameter b.displayName key))
  | some v =>
    match v.toReal with
    | .ok x => pure x
    | .error .tooLarge => throw (.value .tooLarge)
    | .error _ => throw (.rejected (.invalidValue b.displayName key v))

/-- A param as a number that is not zero or negative. -/
def positive (b : Block α) (key : String) (default : Option α) : Except (Fault α) α := do
  let x ← b.number key default
  if x ≤ 0.0 then throw (.rejected (.notPositive b.displayName key)) else pure x

/-- The comparator of a block, "at least" unless it is written. -/
def comparator (b : Block α) : Except (Fault α) Comparator :=
  let condition := match b.param? "condition" with
    | some v => v.shown
    | none => ">="
  match Comparator.ofSign? condition with
  | some op => pure op
  | none => throw (.rejected (.invalidCondition condition))

end Block

end StrategyLab
