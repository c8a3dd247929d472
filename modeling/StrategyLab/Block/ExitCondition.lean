/-
Exit conditions in writing: `profit`, `loss` or `price`, a comparison sign and a number, with
white space between them. Letters may be of either case.
-/
import StrategyLab.Block.Params

namespace StrategyLab

/-- What an exit condition looks at. -/
inductive Measure where
  | price
  | profit
  | loss
  deriving Repr, DecidableEq, Inhabited

/-- A condition on an open position. -/
structure ExitCondition (α : Type) where
  measure : Measure
  comparator : Comparator
  threshold : α
  deriving Repr, Inhabited

namespace ExitCondition

/-- A letter matches another regardless of case; the long s counts as an s, the dotted capital
and the dotless small i count as an i. -/
def sameLetter (letter c : Char) : Bool :=
  c.toLower = letter ∨ (letter = 's' ∧ c.toNat = 0x17F) ∨
    (letter = 'i' ∧ (c.toNat = 0x130 ∨ c.toNat = 0x131))

/-- The text after a word in any case. -/
def afterWord? : (word : List Char) → List Char → Option (List Char)
  | [], rest => some rest
  | _ :: _, [] => none
  | letter :: word, c :: rest => if sameLetter letter c then afterWord? word rest else none

/-- What a word stands for. A word with a letter outside of ASCII reads as a loss. -/
def measureOf (word : List Char) : Measure :=
  let lower := String.ofList (word.map Char.toLower)
  if lower = "price" then .price else if lower = "profit" then .profit else .loss

/-- The measure at the beginning of a text, and the rest. -/
def measure? (cs : List Char) : Option (Measure × List Char) :=
  ["profit", "loss", "price"].findSome? fun word =>
    (afterWord? word.toList cs).map fun rest => (measureOf (cs.take word.length), rest)

/-- The comparison sign at the beginning of a text, and the rest. -/
def comparator? : List Char → Option (Comparator × List Char)
  | '>' :: '=' :: rest => some (.atLeast, rest)
  | '<' :: '=' :: rest => some (.atMost, rest)
  | '=' :: '=' :: rest => some (.near, rest)
  | '>' :: rest => some (.above, rest)
  | '<' :: rest => some (.below, rest)
  | _ => none

/-- A number at the beginning of a text: a minus or nothing, digits, and a point with digits or
nothing. -/
def number? (cs : List Char) : Option (List Char × List Char) :=
  let (sign, rest) := match cs with
    | '-' :: rest => (['-'], rest)
    | _ => ([], cs)
  let (whole, rest) := rest.span Text.isDigit
  if whole.isEmpty then none
  else match rest with
    | '.' :: more =>
      let (fraction, after) := more.span Text.isDigit
      if fraction.isEmpty then some (sign ++ whole, rest)
      else some (sign ++ whole ++ '.' :: fraction, after)
    | _ => some (sign ++ whole, rest)

/-- Reads a condition. -/
def read? {α : Type} [Scalar α] (s : String) : Option (ExitCondition α) := do
  let (measure, rest) ← measure? (s.toList.dropWhile Text.isBlank)
  let (comparator, rest) ← comparator? (rest.dropWhile Text.isBlank)
  let (digits, rest) ← number? (rest.dropWhile Text.isBlank)
  if rest.all Text.isBlank then
    let threshold ← Numeral.real? (String.ofList digits)
    some { measure, comparator, threshold }
  else none

end ExitCondition

end StrategyLab
