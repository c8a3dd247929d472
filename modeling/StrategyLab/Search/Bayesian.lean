/-
Search around the best observation so far: of several uniform samples the one is suggested whose
distance from the best observation is nearest to a target. Without a usable observation a sample
is suggested. Only the first objective ranks observations.
-/
import StrategyLab.Search.Assignment
import StrategyLab.Search.Parameter
import StrategyLab.Search.Sampling

namespace StrategyLab

/-- An assignment that has been evaluated, with its scores. -/
structure Observation (α : Type) where
  assignment : Assignment α
  scores : Object α
  deriving Inhabited

/-- The written form. -/
def Observation.toValue {α : Type} (o : Observation α) : Value α :=
  .record [("parameters", .object o.assignment), ("scores", .object o.scores)]

/-- A search that suggests samples near its best observation. -/
structure BayesianSearch (α : Type) where
  parameters : List (Parameter α)
  /-- The objective that ranks observations. -/
  objective : String
  /-- How many samples are drawn for a suggestion. -/
  candidates : Nat
  /-- The preferred distance from the best observation. -/
  target : α
  /-- What has been observed, in order. -/
  observations : List (Observation α)
  deriving Inhabited

namespace BayesianSearch

variable {σ α : Type} [Scalar α]

/-! ## Start -/

/-- How many samples are drawn for a suggestion unless told otherwise. -/
def defaultCandidates : Int := 20

/-- The preferred distance unless told otherwise. -/
def defaultTarget : α := 0.2

/-- The first objective; there has to be one. -/
def primary (objectives : List String) : Except (Fault α) String :=
  match objectives with
  | [] => throw (.request .noObjective)
  | name :: _ => pure name

/-- A search without observations. -/
def start (parameters : List (Parameter α)) (objectives : List String) (candidates : Int)
    (target : α) : Except (Fault α) (BayesianSearch α) := do
  let objective ← primary objectives
  pure
    { parameters, objective, candidates := max 1 candidates.toNat, target, observations := [] }

/-! ## Observations -/

/-- The search after one more observation. -/
def observe (s : BayesianSearch α) (o : Observation α) : BayesianSearch α :=
  { s with observations := s.observations ++ [o] }

/-- The first item with the largest score, each item being paired with its score. -/
def firstLargest {β : Type} : List (β × α) → Option (β × α)
  | [] => none
  | first :: rest => some (rest.foldl (fun best x => if best.2 < x.2 then x else best) first)

/-- The best observation: the first of those with the largest finite oriented score. -/
def best (s : BayesianSearch α) : Except (ValueFault α) (Option (Observation α)) := do
  let scored ← s.observations.mapM fun o => do
    let x ← Objective.oriented o.scores s.objective
    pure (o, x)
  pure ((firstLargest (scored.filter fun (_, x) => Scalar.isFinite x)).map (·.1))

/-! ## Suggestions -/

/-- The appeal of a distance; it falls with the distance from the target. -/
def appeal (target distance : α) : α := 1.0 / (1.0 + Scalar.magnitude (distance - target))

/-- The appeal of a candidate beside an anchor. -/
def acquisition (s : BayesianSearch α) (candidate anchor : Assignment α) :
    Except (ValueFault α) α := do
  let d ← Assignment.distance s.parameters candidate anchor
  pure (appeal s.target d)

/-- Whether a number replaces a largest one found before it: it is larger, or the first undefined
one. -/
def replaces (best x : α) : Bool :=
  !Scalar.isUndefined best && (Scalar.isUndefined x || decide (best < x))

/-- The position of the first largest number, an undefined one counting as largest; `best` and
`found` are the largest so far and its position. -/
def largestFrom (best : α) (found position : Nat) : List α → Nat
  | [] => found
  | x :: rest =>
    if replaces best x then largestFrom x position (position + 1) rest
    else largestFrom best found (position + 1) rest

/-- The position of the first largest number. -/
def positionOfLargest : List α → Nat
  | [] => 0
  | x :: rest => largestFrom x 0 1 rest

variable [RandomSource σ α]

/-- Uniform samples to begin with; none for a count that is not positive. -/
def initialSamples (s : BayesianSearch α) (count : Int) : StateM σ (List (Assignment α)) :=
  Sampling.samples s.parameters count.toNat

/-- The next assignment to evaluate. -/
def suggest (s : BayesianSearch α) : Draw σ α (Assignment α) := do
  match ← Draw.ofValue s.best with
  | none =>
    let drawn ← (s.initialSamples 1 : StateM σ (List (Assignment α)))
    pure (drawn.headD [])
  | some anchor =>
    let drawn ← (s.initialSamples s.candidates : StateM σ (List (Assignment α)))
    let appeals ← Draw.ofValue (drawn.mapM fun c => s.acquisition c anchor.assignment)
    pure (drawn.getD (positionOfLargest appeals) [])

end BayesianSearch

end StrategyLab
