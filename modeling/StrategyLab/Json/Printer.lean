/-
Writing JSON text in ASCII: either compact, or with one item per line, indented by two blanks a
level. Fields are written in their order, or sorted by name.
-/
import StrategyLab.Value.Reading
import StrategyLab.Text.Quoted

namespace StrategyLab.Json

variable {α : Type} [Scalar α]

/-! ## Strings and numbers -/

/-- A character of a string; beyond ASCII it is written in units of sixteen bits. -/
def escapeChar (c : Char) : List Char :=
  let unit (n : Nat) : List Char := '\\' :: 'u' :: Text.hexPadded 4 n
  if c = '"' then ['\\', '"']
  else if c = '\\' then ['\\', '\\']
  else if c = '\n' then ['\\', 'n']
  else if c = '\r' then ['\\', 'r']
  else if c = '\t' then ['\\', 't']
  else if c.toNat = 8 then ['\\', 'b']
  else if c.toNat = 12 then ['\\', 'f']
  else if 32 ≤ c.toNat ∧ c.toNat < 127 then [c]
  else if c.toNat < 0x10000 then unit c.toNat
  else
    let n := c.toNat - 0x10000
    unit (0xD800 + n / 0x400) ++ unit (0xDC00 + n % 0x400)

/-- A string in quotes. -/
def stringText (s : String) : String :=
  String.ofList ('"' :: s.toList.flatMap escapeChar ++ ['"'])

/-- A number; infinities and the undefined value are written as words. -/
def numText : Num α → String
  | .whole n => toString n
  | .real x =>
    if Scalar.isFinite x then Scalar.text x
    else if Scalar.isUndefined x then "NaN"
    else if x < 0.0 then "-Infinity"
    else "Infinity"

/-- The name of a field. -/
def keyText : Key α → String
  | .text s => s
  | .num x => numText x
  | .truth b => if b then "true" else "false"
  | .null => "null"

/-! ## The order of fields -/

/-- A key comes before another; names among each other, and numbers among each other. -/
def keyBefore? (a b : Key α) : Option Bool :=
  match a, b with
  | .text s, .text t => some (decide (s < t))
  | _, _ =>
    match a.number?, b.number? with
    | some x, some y => some (x.isLess y)
    | _, _ => none

/-- Every key can be compared with the first one. -/
def areComparable {β : Type} : List (Key α × β) → Bool
  | [] => true
  | (k, _) :: rest => rest.all fun (k', _) => (keyBefore? k k').isSome

/-- Fields sorted by key. -/
def sortFields {β : Type} (fields : List (Key α × β)) :
    Except (ValueFault α) (List (Key α × β)) :=
  if areComparable fields then
    .ok (fields.mergeSort fun f g => !((keyBefore? g.1 f.1).getD false))
  else .error (.incomparable "<" "str" "int")

/-! ## Values -/

/-- How values are written. -/
structure Style where
  /-- One item per line. -/
  multiline : Bool
  /-- Fields sorted by key. -/
  sorted : Bool
  /-- Numbers of fixed width are written as reals. -/
  narrowAsReal : Bool

/-- A line break with the indentation of a level, or nothing. -/
def lineBreak (style : Style) (level : Nat) : String :=
  if style.multiline then "\n" ++ String.ofList (List.replicate (2 * level) ' ') else ""

/-- What stands between a name and its value. -/
def colonText (style : Style) : String := if style.multiline then ": " else ":"

/-- The scalar of a value that has no JSON form of its own. -/
def asReal (style : Style) (v : Value α) : Except (ValueFault α) String :=
  if style.narrowAsReal then (v.toReal).map fun x => numText (.real x)
  else .error (.notWritable v.kindName)

mutual
/-- The text of a value at a level of nesting. -/
def render (style : Style) (level : Nat) : Value α → Except (ValueFault α) String
  | .null => .ok "null"
  | .truth b => .ok (if b then "true" else "false")
  | .num x => .ok (numText x)
  | .narrow (.real x) => .ok (numText (.real x))
  | .text s => .ok (stringText s)
  | .list [] | .tuple [] => .ok "[]"
  | .list items | .tuple items => do
    let inner ← renderItems style (level + 1) items
    pure ("[" ++ lineBreak style (level + 1) ++ inner ++ lineBreak style level ++ "]")
  | .object [] => .ok "\x7b\x7d"
  | .object fields => do
    let texts ← renderFields style (level + 1) fields
    let ordered ← if style.sorted then sortFields texts else pure texts
    let separator := "," ++ lineBreak style (level + 1)
    let inner := String.intercalate separator (ordered.map (·.2))
    pure ("\x7b" ++ lineBreak style (level + 1) ++ inner ++ lineBreak style level ++ "\x7d")
  | v => asReal style v

/-- The texts of items with separators. -/
def renderItems (style : Style) (level : Nat) : List (Value α) → Except (ValueFault α) String
  | [] => .ok ""
  | [v] => render style level v
  | v :: rest => do
    let first ← render style level v
    let others ← renderItems style level rest
    pure (first ++ "," ++ lineBreak style level ++ others)

/-- The texts of fields, each with its key. -/
def renderFields (style : Style) (level : Nat) :
    List (Key α × Value α) → Except (ValueFault α) (List (Key α × String))
  | [] => .ok []
  | (k, v) :: rest => do
    let text ← render style level v
    let others ← renderFields style level rest
    pure ((k, stringText (keyText k) ++ colonText style ++ text) :: others)
end

end StrategyLab.Json
