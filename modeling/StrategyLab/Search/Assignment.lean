/-
Assignments of numbers to parameters: for each block an object of the params that are overridden.
An assignment is a dynamic value, because it comes from files and requests as well as from a
search. `fingerprint` is one text for all assignments that differ only in the order of fields.
For the distance of two assignments each parameter is put on a scale from 0 to 1 by the ends of its
range; it is the root of the mean of the squared differences over the parameters that both assign.
-/
import StrategyLab.Block.Basic
import StrategyLab.Json.Printer
import StrategyLab.Number.Summation
import StrategyLab.Search.Parameter

namespace StrategyLab

/-- Numbers for parameters, by block and name. -/
abbrev Assignment (α : Type) := Object α

namespace Assignment

variable {α : Type} [Scalar α]

/-! ## Single parameters -/

/-- The number assigned to a parameter, none if there is no number. -/
def get (a : Assignment α) (p : Parameter α) : Except (ValueFault α) (Option α) :=
  match (Object.get? a p.blockId).filter Value.isPresent with
  | none => .ok none
  | some own => do
    let fields ← own.asObject
    match Object.get? fields p.name with
    | none | some .null => pure none
    | some v => do
      let x ← v.toReal
      pure (some x)

/-- The assignment with a number for a parameter. -/
def put (a : Assignment α) (p : Parameter α) (x : α) : Assignment α :=
  let own := ((Object.get? a p.blockId).bind Value.fields?).getD []
  Object.insert a (.text p.blockId) (.object (Object.insert own (.text p.name) (.real x)))

/-- Assigns a number to a parameter, unless what is assigned to its block is no object. -/
def set (a : Assignment α) (p : Parameter α) (x : α) : Except (ValueFault α) (Assignment α) :=
  match Object.get? a p.blockId with
  | none | some (.object _) => .ok (put a p x)
  | some v => .error (.notIndexable v.kindName)

/-! ## Blocks -/

/-- The block with what is assigned to it overriding its params. -/
def overrideBlock (a : Value α) (b : Block α) : Except (ValueFault α) (Block α) := do
  let fields ← a.asObject
  match (Object.get? fields b.id).filter Value.isPresent with
  | none => pure b
  | some own => do
    let overrides ← own.toObject
    pure (b.withParams overrides)

/-- The strategy with an assignment overriding params. -/
def overrideBlocks (a : Value α) (blocks : List (Block α)) :
    Except (ValueFault α) (List (Block α)) :=
  blocks.mapM (overrideBlock a)

/-! ## Fingerprint -/

/-- The text of a value that does not depend on the order of fields. -/
def fingerprint (v : Value α) : Except (Fault α) String := do
  let s ← Json.render ⟨false, true, true⟩ 0 v
  pure s

/-! ## Distance -/

/-- The place of a parameter on the scale; none without a number or a proper range. -/
def place (a : Assignment α) (p : Parameter α) : Except (ValueFault α) (Option α) := do
  let found ← a.get p
  let (low, high) := p.bounds
  pure (found.bind fun x => if high ≤ low then none else some ((x - low) / (high - low)))

/-- The places of several parameters. -/
def places (ps : List (Parameter α)) (a : Assignment α) :
    Except (ValueFault α) (List (Option α)) :=
  ps.mapM (place a)

/-- The defined differences of two lists of places. -/
def differences (xs ys : List (Option α)) : List α :=
  (xs.zip ys).filterMap fun (x, y) =>
    (x.bind fun x => y.map fun y => x - y).filter fun d => !Scalar.isUndefined d

/-- The root of the mean of the squares; zero for no terms. -/
def rootMeanSquare (ds : List α) : α :=
  if ds.isEmpty then 0.0 else Scalar.sqrt (Sample.mean (ds.map fun d => d * d))

/-- The distance of two assignments. -/
def distance (ps : List (Parameter α)) (a b : Assignment α) : Except (ValueFault α) α := do
  let xs ← places ps a
  let ys ← places ps b
  pure (rootMeanSquare (differences xs ys))

end Assignment

end StrategyLab
