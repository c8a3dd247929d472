/-
Reading JSON text. Tokens are taken one at a time by an automaton with a stack of the lists and
objects that are still open. The order of the fields of an object is kept; of two fields with one
name the last value counts, at the place of the first.
-/
import StrategyLab.Json.Token
import StrategyLab.Value.Basic

namespace StrategyLab.Json

/-! ## Numbers and literals -/

/-- A run of ASCII digits at the beginning, and the rest. -/
def digitRun (cs : List Char) : List Char × List Char := cs.span Char.isDigit

/-- The whole number written by ASCII digits. -/
def natOf (cs : List Char) : Nat := cs.foldl (fun n c => 10 * n + (c.toNat - 48)) 0

/-- A number: whole unless it has a point or an exponent. -/
def number? {α : Type} [Scalar α] (cs : List Char) : Option (Num α) := do
  let (minus, rest) := match cs with
    | '-' :: rest => (true, rest)
    | _ => (false, cs)
  let (whole, rest) := digitRun rest
  if whole.isEmpty ∨ (whole.head? = some '0' ∧ 1 < whole.length) then none
  let (fraction, rest) ← match rest with
    | '.' :: more =>
      let (ds, rest) := digitRun more
      if ds.isEmpty then none else some (some ds, rest)
    | _ => some (none, rest)
  let exponent ← match rest with
    | [] => some none
    | c :: more =>
      if c = 'e' ∨ c = 'E' then
        let (negative, ds) := Numeral.signed more
        if ds.isEmpty ∨ ¬ ds.all Char.isDigit then none
        else some (some (if negative then -Int.ofNat (natOf ds) else Int.ofNat (natOf ds)))
      else none
  if fraction.isNone ∧ exponent.isNone then
    some (.whole (if minus then -Int.ofNat (natOf whole) else Int.ofNat (natOf whole)))
  else
    let ds := fraction.getD []
    let x : α := Numeral.ofDecimal (natOf (whole ++ ds)) (exponent.getD 0 - Int.ofNat ds.length)
    some (.real (if minus then -x else x))

/-- The value of a bare word. -/
def word? {α : Type} [Scalar α] (cs : List Char) : Option (Value α) :=
  let s := String.ofList cs
  if s = "null" then some .null
  else if s = "true" then some (.truth true)
  else if s = "false" then some (.truth false)
  else if s = "NaN" then some (.real Scalar.undefined)
  else if s = "Infinity" then some (.real Scalar.infinity)
  else if s = "-Infinity" then some (.real Scalar.negativeInfinity)
  else (number? cs).map .num

/-! ## The stack -/

/-- A list or an object that is still open; what is read so far is kept reversed. -/
inductive Frame (α : Type) where
  | array (items : List (Value α))
  | object (fields : List (Key α × Value α))
  | field (fields : List (Key α × Value α)) (name : String)

/-- What may come next. -/
inductive Expect where
  /-- A value. -/
  | value
  /-- A value or the end of the list just opened. -/
  | firstItem
  /-- A name or the end of the object just opened. -/
  | firstName
  /-- A name. -/
  | name
  /-- A colon. -/
  | colon
  /-- A comma or the end of what is open. -/
  | more
  /-- Nothing. -/
  | done
  deriving DecidableEq

/-- The state of the automaton between two tokens. -/
structure Reading (α : Type) where
  expect : Expect
  stack : List (Frame α)
  result : Option (Value α)

variable {α : Type} [Scalar α]

/-- The state after a complete value. -/
def Reading.complete (stack : List (Frame α)) (v : Value α) : Option (Reading α) :=
  match stack with
  | [] => some ⟨.done, [], some v⟩
  | .array items :: rest => some ⟨.more, .array (v :: items) :: rest, none⟩
  | .field fields name :: rest => some ⟨.more, .object ((.text name, v) :: fields) :: rest, none⟩
  | .object _ :: _ => none

/-- The fields as read, the last value of a name at the place of the first. -/
def settleFields (reversed : List (Key α × Value α)) : Object α :=
  Object.ofPairs reversed.reverse

/-- The state after one more token. -/
def Reading.step (r : Reading α) (t : Token) : Option (Reading α) :=
  match r.expect, t with
  | .value, .openArray | .firstItem, .openArray => some ⟨.firstItem, .array [] :: r.stack, none⟩
  | .value, .openObject | .firstItem, .openObject =>
    some ⟨.firstName, .object [] :: r.stack, none⟩
  | .value, .string s | .firstItem, .string s => Reading.complete r.stack (.text s)
  | .value, .word cs | .firstItem, .word cs =>
    (word? cs).bind fun v => Reading.complete r.stack v
  | .firstItem, .closeArray | .more, .closeArray =>
    match r.stack with
    | .array items :: rest => Reading.complete rest (.list items.reverse)
    | _ => none
  | .firstName, .closeObject | .more, .closeObject =>
    match r.stack with
    | .object fields :: rest => Reading.complete rest (.object (settleFields fields))
    | _ => none
  | .firstName, .string s | .name, .string s =>
    match r.stack with
    | .object fields :: rest => some ⟨.colon, .field fields s :: rest, none⟩
    | _ => none
  | .colon, .colon => some ⟨.value, r.stack, none⟩
  | .more, .comma =>
    match r.stack with
    | .array _ :: _ => some ⟨.value, r.stack, none⟩
    | .object _ :: _ => some ⟨.name, r.stack, none⟩
    | _ => none
  | _, _ => none

/-- The state after a list of tokens. -/
def Reading.run (r : Reading α) : List Token → Option (Reading α)
  | [] => some r
  | t :: rest => (r.step t).bind fun next => next.run rest

/-- The value that a text writes, none if it is no JSON text. -/
def read? (s : String) : Option (Value α) := do
  let ts ← tokens? s
  let r ← Reading.run ⟨.value, [], none⟩ ts
  r.result

end StrategyLab.Json
