/-
Search by generations: the fitter half of a population survives, and the rest is filled up with
children of two survivors each. A child mixes its parents, and then some of its values are moved
at random within their ranges.
-/
import StrategyLab.Search.Extraction
import StrategyLab.Search.Parameter
import StrategyLab.Search.Sampling

namespace StrategyLab

/-- A member of a population. -/
structure Individual (α : Type) where
  assignment : Assignment α
  fitness : α
  deriving Inhabited

/-- A population and what is needed to let it evolve. -/
structure GeneticSearch (α : Type) where
  parameters : List (Parameter α)
  /-- The objective that gives the fitness. -/
  objective : String
  /-- The number of members. -/
  size : Nat
  /-- The share of values that are moved. -/
  mutationRate : α
  generation : Nat
  population : List (Individual α)
  deriving Inhabited

namespace GeneticSearch

variable {σ α : Type} [Scalar α]

/-! ## Fitness -/

/-- The number of members unless told otherwise. -/
def defaultSize : Int := 30

/-- The share of values that are moved unless told otherwise. -/
def defaultRate : α := 0.2

/-- How far values are moved, as a share of their range. -/
def mutationScale : α := 0.2

/-- A member that has not been evaluated. -/
def newborn (a : Assignment α) : Individual α :=
  { assignment := a, fitness := Scalar.negativeInfinity }

/-- The assignments of the members. -/
def assignments (s : GeneticSearch α) : List (Assignment α) := s.population.map (·.assignment)

/-- The written form of a population: for each member its assignment and its fitness. -/
def toValue (s : GeneticSearch α) : Value α :=
  .record [("generation", .whole s.generation),
    ("population", .list (s.population.map fun m =>
      .list [.object m.assignment, .real m.fitness]))]

/-- The fitness of a member with given scores. -/
def fitnessOf (s : GeneticSearch α) (scores : Object α) : Except (ValueFault α) α :=
  Objective.oriented scores s.objective

/-- The position in a list of a whole number, negative ones counting from the end. -/
def position? (length : Nat) (i : Int) : Option Nat :=
  let at' := if i < 0 then i + length else i
  if 0 ≤ at' ∧ at' < length then some at'.toNat else none

/-- Sets the fitness of a member. -/
def setFitness (s : GeneticSearch α) (i : Int) (x : α) :
    Except (ValueFault α) (GeneticSearch α) :=
  match position? s.population.length i with
  | some k =>
    .ok { s with population := s.population.modify k fun member => { member with fitness := x } }
  | none => .error .noSuchItem

/-- The members, the fittest first; equally fit ones keep their order. -/
def ranked (s : GeneticSearch α) : List (Individual α) :=
  s.population.mergeSort fun a b => !decide (a.fitness < b.fitness)

/-- The assignments of the fittest members. -/
def select (s : GeneticSearch α) (count : Int) : List (Assignment α) :=
  (firstItems count s.ranked).map (·.assignment)

/-! ## Start -/

/-- A search without members, to be populated. There have to be an objective and at least two
members. -/
def start (parameters : List (Parameter α)) (objectives : List String) (size : Int) (rate : α) :
    Except (Fault α) (GeneticSearch α) :=
  match objectives with
  | [] => throw (.request .noObjective)
  | objective :: _ =>
    if size < 2 then throw (.request .populationTooSmall)
    else
      pure
        { parameters, objective, size := size.toNat, mutationRate := rate, generation := 0
          population := [] }

variable [RandomSource σ α]

/-- The search with a population of uniform samples. -/
def populate (s : GeneticSearch α) : StateM σ (GeneticSearch α) := do
  let drawn ← (Sampling.samples s.parameters s.size : StateM σ (List (Assignment α)))
  pure { s with population := drawn.map newborn }

/-! ## Children -/

/-- A value between those of two parents: one of the two, or a mixture. -/
def blend (p : Parameter α) (x y : α) : StateM σ α := do
  let share ← Draw.unit
  pure (if p.isDiscrete then (if share < 0.5 then x else y) else x * share + y * (1.0 - share))

/-- Mixes two assignments: the child has a value where both parents have one. -/
def crossoverFrom (a b : Assignment α) :
    List (Parameter α) → Assignment α → Draw σ α (Assignment α)
  | [], child => pure child
  | p :: ps, child => do
    let x ← Draw.ofValue (a.get p)
    let y ← Draw.ofValue (b.get p)
    match x, y with
    | some x, some y => do
      let z ← (blend p x y : StateM σ α)
      let grown ← Draw.ofValue (child.set p z)
      crossoverFrom a b ps grown
    | _, _ => crossoverFrom a b ps child

/-- Mixes two assignments. -/
def crossover (s : GeneticSearch α) (a b : Assignment α) : Draw σ α (Assignment α) :=
  crossoverFrom a b s.parameters []

/-- A value moved within its range by a share of it. -/
def moved (p : Parameter α) (x share : α) : α :=
  let (low, high) := p.bounds
  Scalar.clamp (x + (share - 0.5) * (high - low) * mutationScale) low high

/-- Changes the value of a parameter: to one of its values, or by a part of its range. -/
def mutateAt (p : Parameter α) (a : Assignment α) : Draw σ α (Assignment α) := do
  if p.isDiscrete then
    let k ← (Draw.below α p.choices.length : StateM σ Nat)
    Draw.ofValue (a.set p (p.choices.getD k 0.0))
  else
    match ← Draw.ofValue (a.get p) with
    | none => pure a
    | some x =>
      let share ← (Draw.unit : StateM σ α)
      Draw.ofValue (a.set p (moved p x share))

/-- Changes the values of some parameters. -/
def mutateFrom (rate : α) : List (Parameter α) → Assignment α → Draw σ α (Assignment α)
  | [], a => pure a
  | p :: ps, a => do
    let u ← (Draw.unit : StateM σ α)
    let next ← if rate < u then pure a else mutateAt p a
    mutateFrom rate ps next

/-- Changes some values of an assignment. -/
def mutate (s : GeneticSearch α) (a : Assignment α) (rate : α) : Draw σ α (Assignment α) :=
  mutateFrom rate s.parameters a

/-! ## Generations -/

/-- A child of two parents drawn from a list. -/
def child (s : GeneticSearch α) (parents : List (Assignment α)) : Draw σ α (Individual α) := do
  let i ← (Draw.below α parents.length : StateM σ Nat)
  let j ← (Draw.below α parents.length : StateM σ Nat)
  let mixed ← s.crossover (parents.getD i []) (parents.getD j [])
  let changed ← s.mutate mixed s.mutationRate
  pure (newborn changed)

/-- So many children of parents drawn from a list. -/
def children (s : GeneticSearch α) (parents : List (Assignment α)) :
    Nat → Draw σ α (List (Individual α))
  | 0 => pure []
  | n + 1 => do
    let first ← s.child parents
    let rest ← children s parents n
    pure (first :: rest)

/-- The next generation: the fitter half, and children of it. -/
def evolve (s : GeneticSearch α) : Draw σ α (GeneticSearch α) := do
  let survivors := s.ranked.take (s.size / 2)
  let offspring ← s.children (survivors.map (·.assignment)) (s.size - s.size / 2)
  pure { s with population := survivors ++ offspring, generation := s.generation + 1 }

end GeneticSearch

end StrategyLab
