/-
Fields of an object with defaults in place of absent ones. A field of another kind than the one
asked for reads as the empty value of that kind; where it has to be refused instead, `Value.field`
and its kin are used.
-/
import StrategyLab.Value.Reading

namespace StrategyLab

variable {α : Type} [Scalar α]

namespace Value

/-! ## Values -/

/-- The items of a list, none of anything else. -/
def itemsD : Value α → List (Value α)
  | .list xs | .tuple xs | .array xs => xs
  | _ => []

/-- The fields of an object, none of anything else. -/
def fieldsD (v : Value α) : Object α := v.fields?.getD []

/-- A number, zero in place of anything else. -/
def numD (v : Value α) : Num α := v.number?.getD (.whole 0)

/-- The scalar of a number, zero in place of anything else. -/
def realD (v : Value α) : α := v.numD.value

/-- The whole part of a number, zero in place of anything else. -/
def wholeD (v : Value α) : Int := v.toWhole.toOption.getD 0

/-- The text of a value, none for nothing. -/
def text? : Value α → Option String
  | .null => none
  | v => some v.shown

/-- The scalars of a list. -/
def reals (v : Value α) : List α := v.itemsD.map realD

/-- The texts of a list. -/
def names (v : Value α) : List String := v.itemsD.map shown

/-- Whether a value is nothing. -/
def isNull : Value α → Bool
  | .null => true
  | _ => false

end Value

namespace Object

/-! ## Fields -/

/-- The value of a name, nothing if it is absent. -/
def value (fields : Object α) (name : String) : Value α := Value.ofOption (get? fields name)

/-- The value of a name, or a default. -/
def valueD (fields : Object α) (name : String) (default : Value α) : Value α :=
  (get? fields name).getD default

/-- The text of a name, or a default. -/
def textD (fields : Object α) (name default : String) : String :=
  (valueD fields name (.text default)).shown

/-- The number of a name, or a default. -/
def numD (fields : Object α) (name : String) (default : Num α) : Num α :=
  (valueD fields name (.num default)).numD

/-- The scalar of a name, or a default. -/
def realD (fields : Object α) (name : String) (default : α) : α :=
  (numD fields name (.real default)).value

/-- The whole number of a name, or a default. -/
def wholeD (fields : Object α) (name : String) (default : Int) : Int :=
  ((get? fields name).bind fun v => v.toWhole.toOption).getD default

/-- The items of a name. -/
def items (fields : Object α) (name : String) : List (Value α) := (value fields name).itemsD

/-- The fields of a name. -/
def fields (fields : Object α) (name : String) : Object α := (value fields name).fieldsD

/-- Whether a name has a value that counts as true. -/
def holds (fields : Object α) (name : String) : Bool := (value fields name).isPresent

/-- The fields with the texts of their keys. -/
def named (fields : Object α) : List (String × Value α) := fields.map fun (k, v) => (k.shown, v)

end Object

end StrategyLab
