/-
Uniform samples of assignments. The parameters are drawn one after the other, for all samples at
once; a parameter with a single possible value is not drawn.
-/
import StrategyLab.Fault
import StrategyLab.Search.Assignment

/-! ## Sources

Sources of random numbers. A search draws from whatever source it is given, so that what holds of
a search holds for every sequence of draws. -/

namespace StrategyLab

/-- A state from which random numbers are drawn, each draw leading to the next state. -/
class RandomSource (σ α : Type) where
  /-- A scalar from zero on and below one. -/
  unit : σ → α × σ
  /-- A position below a count. -/
  below : Nat → σ → Nat × σ

/-- A computation that draws random numbers and may fail; what was drawn before a fault stays
drawn. -/
abbrev Draw (σ α β : Type) := ExceptT (Fault α) (StateM σ) β

namespace Draw

variable {σ α β : Type}

/-- Draws a scalar. -/
def unit [RandomSource σ α] : StateM σ α := fun s => RandomSource.unit s

/-- Draws a position below a count. -/
def below (α : Type) [RandomSource σ α] (n : Nat) : StateM σ Nat :=
  fun s => RandomSource.below α n s

/-- Repeats a draw. -/
def times (draw : StateM σ β) : Nat → StateM σ (List β)
  | 0 => pure []
  | n + 1 => do
    let x ← draw
    let rest ← times draw n
    pure (x :: rest)

/-- A value that can be read, or the fault of reading it. -/
def ofValue (r : Except (ValueFault α) β) : Draw σ α β :=
  match r with
  | .ok x => pure x
  | .error cause => throw (.value cause)

end Draw

end StrategyLab

namespace StrategyLab.Sampling

variable {σ α : Type} [Scalar α]

/-! ## One parameter -/

/-- The width of a range, widened to the next scalar so that its end can be drawn. -/
def width (low high : α) : α :=
  let d := high - low
  if d < d + 1.0 then Scalar.successor d else d

/-- The scalar of a range at a share of its width. -/
def atShare (low high share : α) : α :=
  Scalar.least (Scalar.greatest (share * width low high + low) low) high

/-- The position of the first running sum of equal shares that reaches a scalar, `sum` being the
sum so far and `position` the next position. -/
def reach (share u sum : α) (position : Nat) : Nat → Option Nat
  | 0 => none
  | left + 1 =>
    let next := sum + share
    if u ≤ next then some position else reach share u next (position + 1) left

/-- The value among several at a scalar below one. -/
def atScalar (values : List α) (u : α) : α :=
  let share := 1.0 / Scalar.ofNat values.length
  let position := (reach share u 0.0 0 values.length).getD 0
  (values[position]?).getD 0.0

variable [RandomSource σ α]

/-- A draw from a dimension. -/
def drawFrom (d : Dimension α) : StateM σ α := do
  let u ← Draw.unit
  pure (match d with
    | .range low high => atShare low high u
    | .choice values => atScalar values u)

/-- So many values for a parameter: drawn, or all the same if there is nothing to draw from. -/
def column (count : Nat) (p : Parameter α) : StateM σ (List α) :=
  match p.dimension with
  | some d => Draw.times (drawFrom d) count
  | none => pure (List.replicate count p.fixedValue)

/-! ## Assignments -/

/-- Gives every assignment its value for a parameter. -/
def putColumn (p : Parameter α) (values : List α) (rows : List (Assignment α)) :
    List (Assignment α) :=
  (rows.zip values).map fun (row, x) => row.put p x

/-- Goes on with samples that have values for the parameters before the given ones. -/
def extend (count : Nat) : List (Parameter α) → List (Assignment α) →
    StateM σ (List (Assignment α))
  | [], rows => pure rows
  | p :: ps, rows => do
    let values ← column count p
    extend count ps (putColumn p values rows)

/-- So many samples. -/
def samples (ps : List (Parameter α)) (count : Nat) : StateM σ (List (Assignment α)) :=
  extend count ps (List.replicate count [])

end StrategyLab.Sampling
