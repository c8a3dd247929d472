/-
The configuration of an optimization and its written form.
-/
import StrategyLab.Search.Genetic
import StrategyLab.Simulation.Config
import StrategyLab.Value.Fields

namespace StrategyLab

/-- How assignments are searched for. -/
inductive Algorithm where
  | bayesian
  | genetic
  deriving Repr, DecidableEq, Inhabited

namespace Algorithm

/-- The written name. -/
def name : Algorithm → String
  | bayesian => "bayesian"
  | genetic => "genetic"

/-- The names of the algorithms. -/
def names : List String := [bayesian.name, genetic.name]

/-- The algorithm with a name. -/
def ofName? (s : String) : Option Algorithm := [bayesian, genetic].find? (·.name == s)

end Algorithm

/-- What an optimization is told besides its strategy. -/
structure SearchConfig (α : Type) where
  parameters : List (Parameter α)
  objectives : List String
  algorithm : Algorithm
  maxIterations : Nat
  run : RunConfig α
  populationSize : Int
  seed : Option Int
  deriving Inhabited

namespace SearchConfig

variable {α : Type} [Scalar α]

/-- Checks the parts of a configuration. -/
def build (parameters : List (Parameter α)) (objectives : List String) (algorithm : Value α)
    (maxIterations : Int) (run : RunConfig α) (populationSize : Int) (seed : Option Int) :
    Except (Fault α) (SearchConfig α) :=
  let found := match algorithm with
    | .text s => Algorithm.ofName? s
    | _ => none
  match found with
  | none => throw (.structural (.unknownAlgorithm algorithm))
  | some algorithm =>
    let unknown := objectives.filter fun name => !Objective.names.contains name
    if objectives.isEmpty then throw (.structural .noObjective)
    else if !unknown.isEmpty then throw (.structural (.unknownObjectives unknown))
    else if maxIterations ≤ 0 then throw (.structural .nonPositiveIterations)
    else
      pure
        { parameters, objectives, algorithm, maxIterations := maxIterations.toNat, run
          populationSize, seed }

/-- Reads a configuration for a strategy. Its parameters are those that the strategy exposes
unless they are declared. -/
def ofFields (blocks : List (Block α)) (fields : Object α) :
    Except (Fault α) (SearchConfig α) := do
  let parameters ← match fields.get? "parameters" with
    | some v => v.itemsD.mapM Parameter.ofValue
    | none => do
      let found ← Parameter.ofBlocks blocks Parameter.defaultLimit
      pure found
  let run ← RunConfig.ofValue (fields.value "config")
  let seed := match fields.value "seed" with
    | .null => none
    | v => some v.wholeD
  build parameters (fields.value "objectives").names (fields.value "algorithm")
    (fields.wholeD "max_iterations" 0) run
    (fields.wholeD "population_size" GeneticSearch.defaultSize) seed

/-- The first objective. -/
def primary (c : SearchConfig α) : String := c.objectives.headD ""

/-- The written form. -/
def toValue (c : SearchConfig α) : Value α :=
  .record [("parameters", .list (c.parameters.map Parameter.toValue)),
    ("objectives", .texts c.objectives), ("algorithm", .text c.algorithm.name),
    ("max_iterations", .whole c.maxIterations), ("backtest_config", c.run.toValue),
    ("population_size", .whole c.populationSize), ("seed", .ofOption (c.seed.map .whole))]

end SearchConfig

end StrategyLab
