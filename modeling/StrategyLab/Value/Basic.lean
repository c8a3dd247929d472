/-
Dynamic values: what a strategy file, a price table or a stored record may hold. Objects keep the
order of their fields. `Value.shown` is how a value reads inside a message, `Value.quoted` how it
reads inside another value.
-/
import StrategyLab.Number.Numeral
import StrategyLab.Text.Quoted
import StrategyLab.Time.Instant

namespace StrategyLab

/-- The key of a field: a name, or rarely a number, a truth value or nothing. -/
inductive Key (α : Type) where
  /-- A name. -/
  | text (s : String)
  /-- A number. -/
  | num (x : Num α)
  /-- A truth value. -/
  | truth (b : Bool)
  /-- Nothing. -/
  | null
  deriving Repr, Inhabited

/-- A dynamic value. -/
inductive Value (α : Type) where
  /-- Nothing. -/
  | null
  /-- A truth value. -/
  | truth (b : Bool)
  /-- A number. -/
  | num (x : Num α)
  /-- A text. -/
  | text (s : String)
  /-- A list. -/
  | list (items : List (Value α))
  /-- A fixed sequence of values. -/
  | tuple (items : List (Value α))
  /-- Named values in order. -/
  | object (fields : List (Key α × Value α))
  /-- An instant, with the offset from universal time it was written with. -/
  | instant (t : Instant) (offset : Option Int)
  /-- A number of fixed width. -/
  | narrow (x : Num α)
  /-- A truth value of fixed width. -/
  | narrowTruth (b : Bool)
  /-- An array of scalars, possibly nested. -/
  | array (items : List (Value α))
  /-- A domain object, given by the fields that describe it. -/
  | entity (fields : List (Key α × Value α))
  /-- The path of a file. -/
  | path (s : String)
  deriving Repr, Inhabited

/-- Named values in order, no name twice. -/
abbrev Object (α : Type) := List (Key α × Value α)

namespace Key

variable {α : Type} [Scalar α]

/-- The number of a key: truth values count as one and zero. -/
def number? : Key α → Option (Num α)
  | num x => some x
  | truth b => some (.whole (if b then 1 else 0))
  | _ => none

/-- Two keys name the same field. Numbers and truth values are the same when equal in value. -/
def same (a b : Key α) : Bool :=
  match a, b with
  | text s, text t => s == t
  | null, null => true
  | _, _ =>
    match a.number?, b.number? with
    | some x, some y => x.isEqual y
    | _, _ => false

/-- How a key reads in a message. -/
def shown : Key α → String
  | text s => s
  | num x => x.text
  | truth b => if b then "True" else "False"
  | null => "None"

/-- How a key reads inside a value. -/
def quoted : Key α → String
  | text s => Text.quote s
  | k => k.shown

end Key

namespace Object

variable {α : Type} [Scalar α]

/-- The value of a key. -/
def find? (fields : Object α) (key : Key α) : Option (Value α) :=
  (List.find? (fun f => f.1.same key) fields).map (·.2)

/-- The value of a name. -/
def get? (fields : Object α) (name : String) : Option (Value α) := find? fields (.text name)

/-- The fields with one set: in place if the key is there, else at the end. -/
def insert : Object α → Key α → Value α → Object α
  | [], key, v => [(key, v)]
  | (k, w) :: rest, key, v =>
    if k.same key then (k, v) :: rest else (k, w) :: insert rest key v

/-- The fields of the first object, overridden and extended by those of the second. -/
def merge (fields overrides : Object α) : Object α :=
  overrides.foldl (fun acc (k, v) => insert acc k v) fields

/-- The fields of a list of pairs, the last of two with one key winning. -/
def ofPairs (pairs : List (Key α × Value α)) : Object α := merge [] pairs

/-- The first name that is not among the known ones. -/
def unknownName? (known : List String) : Object α → Option String
  | [] => none
  | (key, _) :: rest =>
    if known.contains key.shown then unknownName? known rest else some key.shown

/-- Named values as fields. -/
def ofNames (fields : List (String × Value α)) : Object α :=
  fields.map fun (k, v) => (.text k, v)

/-- Whether a name is among the fields. -/
def has (fields : Object α) (name : String) : Bool := (get? fields name).isSome

end Object

namespace Value

variable {α : Type}

/-- An object of named values. -/
def record (fields : List (String × Value α)) : Value α :=
  .object (fields.map fun (k, v) => (.text k, v))

/-- A scalar. -/
def real (x : α) : Value α := .num (.real x)

/-- A whole number. -/
def whole (n : Int) : Value α := .num (.whole n)

/-- A list of texts. -/
def texts (items : List String) : Value α := .list (items.map .text)

/-- A value or nothing. -/
def ofOption (v : Option (Value α)) : Value α := v.getD .null

variable [Scalar α]

/-! ## Text -/

mutual
/-- How a value reads inside another value. -/
def quoted : Value α → String
  | .null => "None"
  | .truth b | .narrowTruth b => if b then "True" else "False"
  | .num x | .narrow x => x.text
  | .text s => Text.quote s
  | .list items => "[" ++ quotedItems items ++ "]"
  | .array items => "array([" ++ quotedItems items ++ "])"
  | .tuple [item] => "(" ++ quoted item ++ ",)"
  | .tuple items => "(" ++ quotedItems items ++ ")"
  | .object fields | .entity fields => "\x7b" ++ quotedFields fields ++ "\x7d"
  | .instant .missing _ => "NaT"
  | .instant (.known ns) _ => "Timestamp('" ++ Instant.render " " ns ++ "')"
  | .path s => "PosixPath(" ++ Text.quote s ++ ")"

/-- Values separated by commas. -/
def quotedItems : List (Value α) → String
  | [] => ""
  | [v] => quoted v
  | v :: rest => quoted v ++ ", " ++ quotedItems rest

/-- Fields separated by commas. -/
def quotedFields : List (Key α × Value α) → String
  | [] => ""
  | [(k, v)] => k.quoted ++ ": " ++ quoted v
  | (k, v) :: rest => k.quoted ++ ": " ++ quoted v ++ ", " ++ quotedFields rest
end

/-- How a value reads in a message: texts as they are. -/
def shown : Value α → String
  | .text s => s
  | .path s => s
  | .instant (.known ns) offset =>
    match offset with
    | some o => Instant.render " " (ns + o) ++ Instant.offsetText o
    | none => Instant.render " " ns
  | v => v.quoted

/-- The name of the kind of a value, for messages about kinds that do not fit. -/
def kindName : Value α → String
  | .null => "NoneType"
  | .truth _ => "bool"
  | .num (.whole _) => "int"
  | .num (.real _) => "float"
  | .text _ => "str"
  | .list _ => "list"
  | .tuple _ => "tuple"
  | .object _ => "dict"
  | .instant .missing _ => "NaTType"
  | .instant _ _ => "Timestamp"
  | .narrow (.whole _) => "int64"
  | .narrow (.real _) => "float64"
  | .narrowTruth _ => "bool"
  | .array _ => "ndarray"
  | .entity _ => "object"
  | .path _ => "PosixPath"

/-! ## Tests -/

/-- Neither nothing, nor false, nor zero, nor empty. -/
def isPresent : Value α → Bool
  | .null => false
  | .truth b | .narrowTruth b => b
  | .num x | .narrow x => !x.isZero
  | .text s => !s.isEmpty
  | .list items | .tuple items | .array items => !items.isEmpty
  | .object fields => !fields.isEmpty
  | .instant _ _ | .entity _ | .path _ => true

/-- The number of a value that is one; truth values count as one and zero. -/
def number? : Value α → Option (Num α)
  | .num x | .narrow x => some x
  | .truth b | .narrowTruth b => some (.whole (if b then 1 else 0))
  | _ => none

/-- The fields of an object. -/
def fields? : Value α → Option (Object α)
  | .object fields => some fields
  | _ => none

end Value

end StrategyLab
