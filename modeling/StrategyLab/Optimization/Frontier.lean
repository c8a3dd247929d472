/-
The frontier of a list of solutions: those that are dominated by no other. One solution dominates
another when it is worse in no objective and better in one; objectives for which one of the two
has no finite score are left out.
-/
import StrategyLab.Search.Assignment
import StrategyLab.Search.Parameter

/-! ## Solutions

Solutions: assignments that have been evaluated, with their scores in sample and out of sample,
or with the reason why they could not be evaluated. -/

namespace StrategyLab

/-- An evaluated assignment. -/
structure Solution (α : Type) where
  id : String
  assignment : Assignment α
  /-- The scores in sample. -/
  inside : Object α
  /-- The scores out of sample. -/
  outside : Object α
  degradation : α
  isOptimal : Bool
  /-- Why the evaluation failed, if it did. -/
  error : Option (Value α)
  windowsFailed : Int
  deriving Inhabited

namespace Solution

variable {α : Type} [Scalar α]

/-- The degradation of an assignment that could not be evaluated. -/
def failedDegradation : α := 100.0

/-- The solution for an assignment that could not be evaluated. -/
def ofFailure (id : String) (assignment : Assignment α) (reason : String) (windows : Nat) :
    Solution α :=
  { id, assignment, inside := [], outside := [], degradation := failedDegradation
    isOptimal := false, error := some (.text reason), windowsFailed := windows }

/-- Whether the evaluation failed. -/
def isFailed (s : Solution α) : Bool := s.error.isSome

/-- The scores that count: those out of sample if there are any. -/
def scores (s : Solution α) : Object α := if s.outside.isEmpty then s.inside else s.outside

/-- The written form. -/
def toValue (s : Solution α) : Value α :=
  .record [("id", .text s.id), ("parameters", .object s.assignment),
    ("in_sample_scores", .object s.inside), ("out_of_sample_scores", .object s.outside),
    ("degradation", .real s.degradation), ("is_pareto_optimal", .truth s.isOptimal),
    ("error", .ofOption s.error), ("windows_failed", .whole s.windowsFailed)]

/-- Reads a solution. -/
def ofValue (v : Value α) : Except (Fault α) (Solution α) := do
  let fields ← match v with
    | .object fields => pure fields
    | v => throw (.value (.notIndexable v.kindName))
  let id ← Value.field fields "id"
  let assignment ← Value.objectOrEmpty (Object.get? fields "parameters")
  let inside ← Value.objectOrEmpty (Object.get? fields "in_sample_scores")
  let outside ← Value.objectOrEmpty (Object.get? fields "out_of_sample_scores")
  let degradation ← ((Object.get? fields "degradation").getD (.real 0.0)).toReal
  let error := match Object.get? fields "error" with
    | none | some .null => none
    | some v => some v
  let windowsFailed ← ((Object.get? fields "windows_failed").getD (.whole 0)).toWhole
  pure
    { id := id.shown, assignment, inside, outside, degradation
      isOptimal := ((Object.get? fields "is_pareto_optimal").getD (.truth false)).isPresent
      error, windowsFailed }

end Solution

end StrategyLab

namespace StrategyLab

namespace Solution

variable {α : Type} [Scalar α]

/-! ## Dominance -/

/-- The finite score of an objective, none without one. -/
def finiteScore (s : Solution α) (name : String) : Except (ValueFault α) (Option α) :=
  match Object.get? s.scores name with
  | none | some .null => .ok none
  | some v => do
    let x ← v.toReal
    pure (if Scalar.isFinite x then some x else none)

/-- The first of two scores of an objective is the better one. -/
def isBetter (name : String) (x y : α) : Bool :=
  if Objective.isMaximized name then decide (y < x) else decide (x < y)

/-- Goes on comparing two solutions; `better` says that the first one has been better before. -/
def dominatesFrom (a b : Solution α) (better : Bool) :
    List String → Except (ValueFault α) Bool
  | [] => .ok better
  | name :: rest => do
    let x ← a.finiteScore name
    let y ← b.finiteScore name
    match x, y with
    | some x, some y =>
      if isBetter name y x then pure false
      else dominatesFrom a b (better || isBetter name x y) rest
    | _, _ => dominatesFrom a b better rest

/-- The first solution is worse in no objective and better in one. -/
def dominates (a b : Solution α) (objectives : List String) : Except (ValueFault α) Bool :=
  dominatesFrom a b false objectives

end Solution

namespace Frontier

variable {α : Type} [Scalar α]

/-! ## The frontier -/

/-- A solution at a position is dominated by one of several at other positions. -/
def isDominated (s : Solution α) (position : Nat) (objectives : List String) :
    List (Solution α × Nat) → Except (ValueFault α) Bool
  | [] => .ok false
  | (other, i) :: rest => do
    let beaten ← if i = position then pure false else other.dominates s objectives
    if beaten then pure true else isDominated s position objectives rest

/-- Marks the solutions that did not fail and are dominated by none of the candidates. -/
def markAmong (candidates : List (Solution α × Nat)) (objectives : List String) :
    List (Solution α × Nat) → Except (ValueFault α) (List (Solution α))
  | [] => .ok []
  | (s, position) :: rest => do
    let dominated ← if s.isFailed then pure true
      else isDominated s position objectives candidates
    let others ← markAmong candidates objectives rest
    pure ({ s with isOptimal := !dominated } :: others)

/-- The solutions, each marked as optimal exactly if it is on the frontier. -/
def mark (solutions : List (Solution α)) (objectives : List String) :
    Except (ValueFault α) (List (Solution α)) :=
  let placed := solutions.zipIdx
  markAmong (placed.filter fun (s, _) => !s.isFailed) objectives placed

/-- The marked solutions. -/
def members (marked : List (Solution α)) : List (Solution α) := marked.filter (·.isOptimal)

/-- The solutions that are dominated by no other, in their order. -/
def extract (solutions : List (Solution α)) (objectives : List String) :
    Except (ValueFault α) (List (Solution α)) :=
  (mark solutions objectives).map members

end Frontier

end StrategyLab
