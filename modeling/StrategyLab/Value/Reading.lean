/-
Reading dynamic values as numbers, objects and lists, and the reasons why one cannot be read.
A number may be written as a text; a truth value counts as one or zero.
-/
import StrategyLab.Value.Basic

namespace StrategyLab

/-- Why a dynamic value cannot be used as asked. -/
inductive ValueFault (α : Type) where
  /-- The text writes no real number. -/
  | notReal (text : String)
  /-- The text writes no whole number. -/
  | notWhole (text : String)
  /-- The undefined value has no whole part. -/
  | undefinedWhole
  /-- An infinity has no whole part. -/
  | infiniteWhole
  /-- The whole number is out of range of the scalars. -/
  | tooLarge
  /-- A value of this kind is no real number. -/
  | realFromKind (kind : String)
  /-- A value of this kind is no whole number. -/
  | wholeFromKind (kind : String)
  /-- Values of these kinds have no order. -/
  | incomparable (relation left right : String)
  /-- Values of these kinds cannot be combined. -/
  | inoperable (operation left right : String)
  /-- A value of this kind has no items to go through. -/
  | notIterable (kind : String)
  /-- A value of this kind has no fields. -/
  | notAnObject (kind : String)
  /-- A value of this kind cannot be looked up by a key or a position. -/
  | notIndexable (kind : String)
  /-- A value of this kind cannot be a key. -/
  | notAKey (kind : String)
  /-- An item of a list of fields is no pair. -/
  | notAPair (position length : Nat)
  /-- An item of a list of fields is no sequence. -/
  | fieldNotASequence (position : Nat)
  /-- The number of items differs from the number asked for. -/
  | wrongCount (expected found : Nat)
  /-- The object has no such field. -/
  | missingKey (key : Key α)
  /-- A record lacks fields that it needs. -/
  | missingFields (owner : String) (names : List String)
  /-- A record has a field that it does not know. -/
  | unknownField (owner name : String)
  /-- A position beyond the end of a list. -/
  | noSuchItem
  /-- A value of this kind is no instant. -/
  | instantFromKind (kind : String)
  /-- A value of this kind has no written form. -/
  | notWritable (kind : String)
  /-- A quotient with divisor zero. -/
  | zeroDivisor
  /-- A remainder with divisor zero. -/
  | zeroModulus
  deriving Repr, Inhabited

namespace Value

variable {α : Type} [Scalar α]

/-! ## Numbers -/

/-- The scalar of a number. -/
def realOfNum (x : Num α) : Except (ValueFault α) α :=
  match x.value? with
  | some y => .ok y
  | none => .error .tooLarge

/-- The scalar that a value holds or writes. -/
def toReal : Value α → Except (ValueFault α) α
  | .num x | .narrow x => realOfNum x
  | .truth b | .narrowTruth b => .ok (if b then 1.0 else 0.0)
  | .text s =>
    match Numeral.real? s with
    | some x => .ok x
    | none => .error (.notReal s)
  | v => .error (.realFromKind v.kindName)

/-- The whole part of a number. -/
def wholeOfNum (x : Num α) : Except (ValueFault α) Int :=
  match x with
  | .whole n => .ok n
  | .real x =>
    match Scalar.wholePart? x with
    | some n => .ok n
    | none => .error (if Scalar.isUndefined x then .undefinedWhole else .infiniteWhole)

/-- The whole number that a value holds or writes; a real loses its fraction. -/
def toWhole : Value α → Except (ValueFault α) Int
  | .num x | .narrow x => wholeOfNum x
  | .truth b | .narrowTruth b => .ok (if b then 1 else 0)
  | .text s =>
    match Numeral.whole? s with
    | some n => .ok n
    | none => .error (.notWhole s)
  | v => .error (.wholeFromKind v.kindName)

/-- Compares a value with a number; only numbers and truth values have an order. -/
def compareNum (relation : String) (v : Value α) (x : Num α) :
    Except (ValueFault α) (Option Ordering) :=
  match v.number? with
  | some y => .ok (y.compare? x)
  | none => .error (.incomparable relation v.kindName (Value.num x).kindName)

/-- Whether a value is a number that is not above another. -/
def isAtMost (v : Value α) (x : Num α) : Except (ValueFault α) Bool :=
  (compareNum "<=" v x).map fun o => o == some .lt || o == some .eq

/-- Whether a value is a number above another. -/
def isAbove (v : Value α) (x : Num α) : Except (ValueFault α) Bool :=
  (compareNum ">" v x).map fun o => o == some .gt

/-! ## Objects and lists -/

/-- The field of an object. -/
def field (fields : Object α) (name : String) : Except (ValueFault α) (Value α) :=
  match fields.get? name with
  | some v => .ok v
  | none => .error (.missingKey (.text name))

/-- The fields of an object, to be asked for by name. -/
def asObject : Value α → Except (ValueFault α) (Object α)
  | .object fields => .ok fields
  | v => .error (.notAnObject v.kindName)

/-- The items that a value goes through: those of a list, the letters of a text, the keys of an
object. -/
def items : Value α → Except (ValueFault α) (List (Value α))
  | .list xs | .tuple xs | .array xs => .ok xs
  | .text s => .ok (s.toList.map fun c => .text (String.ofList [c]))
  | .object fields => .ok (fields.map fun (k, _) =>
      match k with
      | .text s => .text s
      | .num x => .num x
      | .truth b => .truth b
      | .null => .null)
  | v => .error (.notIterable v.kindName)

/-- A value as a key. -/
def asKey : Value α → Except (ValueFault α) (Key α)
  | .text s => .ok (.text s)
  | .num x | .narrow x => .ok (.num x)
  | .truth b | .narrowTruth b => .ok (.truth b)
  | .null => .ok .null
  | v => .error (.notAKey v.kindName)

/-- The pairs of a list of pairs, `position` being that of the first. -/
def pairsFrom (position : Nat) : List (Value α) → Except (ValueFault α) (List (Key α × Value α))
  | [] => .ok []
  | item :: rest =>
    match items item with
    | .error _ => .error (.fieldNotASequence position)
    | .ok [k, v] => do
      let key ← asKey k
      let more ← pairsFrom (position + 1) rest
      pure ((key, v) :: more)
    | .ok found => .error (.notAPair position found.length)

/-- The fields of an object or of a list of pairs. -/
def toObject : Value α → Except (ValueFault α) (Object α)
  | .object fields => .ok fields
  | v => do
    let pairs ← pairsFrom 0 (← items v)
    pure (Object.ofPairs pairs)

/-- The fields of a value, those of the empty object when it is absent or empty. -/
def objectOrEmpty (v : Option (Value α)) : Except (ValueFault α) (Object α) :=
  match v with
  | some v => if v.isPresent then toObject v else .ok []
  | none => .ok []

end Value

namespace ValueFault

variable {α : Type} [Scalar α]

/-- How a list of names reads: each in quotes, the last after "and". -/
def namesShown : List String → String
  | [] => ""
  | [a] => Text.quote a
  | [a, b] => Text.quote a ++ " and " ++ Text.quote b
  | names => String.intercalate ", " (names.dropLast.map Text.quote) ++ ", and " ++
      Text.quote (names.getLastD "")

/-- The explanation of a fault. -/
def message : ValueFault α → String
  | notReal text => "could not convert string to float: " ++ Text.quote text
  | notWhole text => "invalid literal for int() with base 10: " ++ Text.quote text
  | undefinedWhole => "cannot convert float NaN to integer"
  | infiniteWhole => "cannot convert float infinity to integer"
  | tooLarge => "int too large to convert to float"
  | realFromKind kind => s!"float() argument must be a string or a real number, not '{kind}'"
  | wholeFromKind kind =>
    s!"int() argument must be a string, a bytes-like object or a real number, not '{kind}'"
  | incomparable relation left right =>
    s!"'{relation}' not supported between instances of '{left}' and '{right}'"
  | inoperable operation left right =>
    s!"unsupported operand type(s) for {operation}: '{left}' and '{right}'"
  | notIterable kind => s!"'{kind}' object is not iterable"
  | notAnObject kind => s!"'{kind}' object has no attribute 'get'"
  | notIndexable kind => s!"'{kind}' object is not subscriptable"
  | notAKey kind => s!"unhashable type: '{kind}'"
  | notAPair position length =>
    s!"dictionary update sequence element #{position} has length {length}; 2 is required"
  | fieldNotASequence position =>
    s!"cannot convert dictionary update sequence element #{position} to a sequence"
  | wrongCount expected found =>
    if found < expected then s!"not enough values to unpack (expected {expected}, got {found})"
    else s!"too many values to unpack (expected {expected})"
  | missingKey key => key.quoted
  | missingFields owner names => owner ++ " lacks " ++ namesShown names
  | unknownField owner name => owner ++ " has no field " ++ Text.quote name
  | noSuchItem => "list index out of range"
  | instantFromKind kind => s!"Cannot convert input of type <class '{kind}'> to Timestamp"
  | notWritable kind => s!"Object of type {kind} is not JSON serializable"
  | zeroDivisor => "float division by zero"
  | zeroModulus => "integer modulo by zero"

end ValueFault

end StrategyLab
