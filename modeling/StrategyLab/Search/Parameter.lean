/-
Parameters of a strategy that a search may change: each is a number among the params of one
block. A parameter has a range, or a list of values to choose from. `Parameter.dimension` is what
there is to draw from, none if only one value is possible.
-/
import StrategyLab.Fault
import StrategyLab.Value.Reading

namespace StrategyLab

/-- The kinds of parameters. -/
inductive ParameterKind where
  | continuous
  | discrete
  | percentage
  deriving Repr, DecidableEq, Inhabited

namespace ParameterKind

/-- The written name. -/
def name : ParameterKind → String
  | continuous => "continuous"
  | discrete => "discrete"
  | percentage => "percentage"

/-- The kind with a name. -/
def ofName? (s : String) : Option ParameterKind :=
  [continuous, discrete, percentage].find? (·.name == s)

end ParameterKind

/-- A parameter as it is declared. -/
structure Parameter (α : Type) where
  blockId : String
  blockKind : String
  name : String
  kind : ParameterKind
  /-- The declared lower end of the range. -/
  low : Option (Num α)
  /-- The declared upper end of the range. -/
  high : Option (Num α)
  /-- The declared values to choose from. -/
  values : Option (List (Num α))
  default : Value α
  deriving Inhabited

/-- What there is to draw from. -/
inductive Dimension (α : Type) where
  /-- Every scalar of a range. -/
  | range (low high : α)
  /-- One of several scalars. -/
  | choice (values : List α)
  deriving Repr, Inhabited

/-- The written form. -/
def Dimension.toValue {α : Type} : Dimension α → Value α
  | range low high => .record [("low", .real low), ("high", .real high)]
  | choice values => .record [("choices", .list (values.map .real))]

namespace Parameter

variable {α : Type} [Scalar α]

/-! ## Meaning -/

/-- Whether one of a list of values is chosen. -/
def isDiscrete (p : Parameter α) : Bool := p.kind = .discrete

/-- The values to choose from, as scalars. -/
def choices (p : Parameter α) : List α := (p.values.getD []).map Num.value

/-- The smallest of the scalars, the first of equal ones. -/
def smallest : List α → α
  | [] => 0.0
  | x :: xs => xs.foldl Scalar.least x

/-- The largest of the scalars, the first of equal ones. -/
def largest : List α → α
  | [] => 0.0
  | x :: xs => xs.foldl Scalar.greatest x

/-- The ends of the range, or of the values to choose from. -/
def bounds (p : Parameter α) : α × α :=
  if p.isDiscrete then (smallest p.choices, largest p.choices)
  else ((p.low.map Num.value).getD 0.0, (p.high.map Num.value).getD 100.0)

/-- Scalars without repetition, in the order of their first occurrence. -/
def distinct (xs : List α) : List α :=
  xs.foldl (fun seen x => if seen.any (· == x) then seen else seen ++ [x]) []

/-- What there is to draw from, none if only one value is possible. -/
def dimension (p : Parameter α) : Option (Dimension α) :=
  if p.isDiscrete then
    let sorted := (distinct p.choices).mergeSort fun x y => decide (x ≤ y)
    if 1 < sorted.length then some (.choice sorted) else none
  else
    let (low, high) := p.bounds
    if low < high then some (.range low high) else none

/-- The value of a parameter that is not drawn. -/
def fixedValue (p : Parameter α) : α :=
  if p.isDiscrete then p.choices.headD 0.0 else p.bounds.1

/-- The name of a parameter among all parameters. -/
def key (p : Parameter α) : String := p.blockId ++ "." ++ p.name

/-! ## Written form -/

/-- The written form. -/
def toValue (p : Parameter α) : Value α :=
  .record [("block_id", .text p.blockId), ("block_kind", .text p.blockKind),
    ("name", .text p.name), ("kind", .text p.kind.name),
    ("min", .ofOption (p.low.map .num)), ("max", .ofOption (p.high.map .num)),
    ("values", .ofOption (p.values.map fun vs => .list (vs.map .num))), ("default", p.default)]

/-- A number of a declaration: it has to be in the range of the scalars. -/
def declaredNum (v : Value α) : Except (ValueFault α) (Num α) := do
  let x ← v.toReal
  pure (v.number?.getD (.real x))

/-- An end of a range; nothing leaves it open. -/
def declaredEnd (v : Option (Value α)) : Except (ValueFault α) (Option (Num α)) :=
  match v with
  | none | some .null => .ok none
  | some v => (declaredNum v).map some

/-- The values of a list; nothing stands for no list. -/
def declaredValues (v : Option (Value α)) : Except (ValueFault α) (Option (List (Num α))) :=
  match v with
  | none | some .null => .ok none
  | some v => do
    let items ← v.items
    let numbers ← items.mapM declaredNum
    pure (some numbers)

/-- The fields that every declaration has. -/
def requiredNames : List String := ["block_id", "block_kind", "name"]

/-- Reads a declaration. A discrete parameter needs values. -/
def ofValue (v : Value α) : Except (Fault α) (Parameter α) := do
  let fields ← v.asObject
  let missing := requiredNames.filter fun name => !Object.has fields name
  if !missing.isEmpty then throw (.value (.missingFields "ParameterDefinition" missing))
  let shown (name : String) : String := (Value.ofOption (Object.get? fields name)).shown
  let kindName := ((Object.get? fields "kind").getD (.text ParameterKind.continuous.name)).shown
  match ParameterKind.ofName? kindName with
  | none => throw (.request (.unknownParameterKind kindName))
  | some kind =>
    let low ← declaredEnd (Object.get? fields "min")
    let high ← declaredEnd (Object.get? fields "max")
    let values ← declaredValues (Object.get? fields "values")
    let p : Parameter α :=
      { blockId := shown "block_id", blockKind := shown "block_kind", name := shown "name", kind
        low, high, values, default := (Object.get? fields "default").getD (.real 0.0) }
    if p.isDiscrete && (p.values.getD []).isEmpty then
      throw (.request (.discreteWithoutValues p.key))
    pure p

end Parameter

end StrategyLab

/-! ## Objectives

Objectives: what a search makes as large or as small as it can. Scores are given by name. A score
is oriented when a larger one is always better, and one that is missing or not finite is worse
than all others. -/

namespace StrategyLab.Objective

/-- The names of the objectives, in order. -/
def names : List String :=
  ["sharpe_ratio", "total_return", "max_drawdown", "win_rate", "gas_costs", "protocol_fees"]

/-- Objectives of which more is better; of the others less is. -/
def isMaximized (name : String) : Bool :=
  name == "sharpe_ratio" || name == "total_return" || name == "win_rate"

variable {α : Type} [Scalar α]

/-- A finite score turned so that a larger one is better. -/
def orient (name : String) (x : α) : α := if isMaximized name then x else -x

/-- Whole numbers that fit in a word of 64 bits, with or without a sign. -/
def fitsWord (n : Int) : Bool := decide (-Int.pow 2 63 ≤ n) && decide (n < Int.pow 2 64)

/-- The number of a score, none if it is missing. Other kinds of values are no scores. -/
def number? (v : Value α) : Except (ValueFault α) (Option (Num α)) :=
  match v with
  | .null => .ok none
  | v =>
    match v.number? with
    | some (.whole n) =>
      if fitsWord n then .ok (some (.whole n)) else .error (.inoperable "isfinite" "int" "int")
    | some x => .ok (some x)
    | none => .error (.inoperable "isfinite" v.kindName v.kindName)

/-- The oriented score of an objective. -/
def oriented (scores : Object α) (name : String) : Except (ValueFault α) α := do
  match ← number? (Value.ofOption (Object.get? scores name)) with
  | none => pure Scalar.negativeInfinity
  | some x => pure (if Scalar.isFinite x.value then orient name x.value else Scalar.negativeInfinity)

end StrategyLab.Objective
