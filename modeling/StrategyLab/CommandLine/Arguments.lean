/-
The arguments of the commands. `backtest` simulates a strategy once, `optimize` searches for good
parameters; both are given a strategy file and a price file.
-/
import StrategyLab.CommandLine.Grammar
import StrategyLab.Number.Numeral
import StrategyLab.Optimization.Config
import StrategyLab.Settings

namespace StrategyLab.CommandLine

/-- What can be run. -/
inductive Command where
  | backtest
  | optimize
  deriving Repr, DecidableEq, Inhabited

namespace Command

/-- The written name. -/
def name : Command → String
  | backtest => "backtest"
  | optimize => "optimize"

/-- The command with a name. -/
def ofName? (s : String) : Option Command := [backtest, optimize].find? (·.name == s)

end Command

/-- The arguments of both commands. -/
structure Arguments (α : Type) where
  command : Command
  logLevel : String
  strategyFile : String
  priceFile : String
  /-- The start as it is written; an empty one is that of the data. -/
  start : String
  /-- The end as it is written; an empty one is that of the data. -/
  stop : String
  capital : α
  interval : Int
  baseCurrency : String
  /-- Further holdings as they are written. -/
  holdings : List String
  showsTrades : Bool
  algorithm : String
  /-- The objectives as they are written, empty for the default ones. -/
  objectives : String
  maxIterations : Int
  populationSize : Int
  maxParameters : Int
  seed : Option Int
  /-- The number of workers; the machine decides if it is not given or zero. -/
  workers : Option Int
  executor : String
  /-- Where the directories of runs are. -/
  runsDirectory : String
  /-- The directory of this run, if it is given. -/
  runDirectory : Option String

namespace Arguments

variable {α : Type} [Scalar α]

/-- The iterations of a search unless told otherwise. -/
def defaultIterations : Int := 50

/-- The level of messages unless told otherwise. -/
def defaultLevel : String := "INFO"

/-- The arguments of a command of which only the files are given. -/
def default (command : Command) : Arguments α :=
  let s : Settings α := Settings.default
  { command, logLevel := defaultLevel, strategyFile := "", priceFile := "", start := "", stop := ""
    capital := s.initialCapital.value, interval := Settings.dayMilliseconds
    baseCurrency := Settings.baseCurrency, holdings := [], showsTrades := false
    algorithm := Algorithm.bayesian.name, objectives := "", maxIterations := defaultIterations
    populationSize := GeneticSearch.defaultSize, maxParameters := Parameter.defaultLimit
    seed := none, workers := none, executor := s.executor
    runsDirectory := Settings.runsDirectory, runDirectory := none }

/-! ## Options -/

/-- One of several words, or nothing. -/
def chosen? (words : List String) (s : String) : Option String :=
  if words.contains s then some s else none

/-- Sets an option; nothing if its argument is refused. -/
def set (name argument : String) (a : Arguments α) : Option (Arguments α) :=
  let whole (f : Int → Arguments α) : Option (Arguments α) := (Numeral.whole? argument).map f
  match name with
  | "--start" => some { a with start := argument }
  | "--end" => some { a with stop := argument }
  | "--capital" => (Numeral.real? argument).map fun x => { a with capital := x }
  | "--interval-ms" => whole fun n => { a with interval := n }
  | "--base-currency" => some { a with baseCurrency := argument }
  | "--holding" => some { a with holdings := a.holdings ++ [argument] }
  | "--trades" => some { a with showsTrades := true }
  | "--algorithm" => (chosen? Algorithm.names argument).map fun s => { a with algorithm := s }
  | "--objectives" => some { a with objectives := argument }
  | "--max-iterations" => whole fun n => { a with maxIterations := n }
  | "--population-size" => whole fun n => { a with populationSize := n }
  | "--max-parameters" => whole fun n => { a with maxParameters := n }
  | "--seed" => whole fun n => { a with seed := some n }
  | "--workers" => whole fun n => { a with workers := some n }
  | "--executor" => (chosen? Settings.executors argument).map fun s => { a with executor := s }
  | "--runs-dir" => some { a with runsDirectory := argument }
  | "--run-dir" => some { a with runDirectory := some argument }
  | _ => none

/-- The options of both commands. -/
def sharedOptions : List String :=
  ["--start", "--end", "--capital", "--interval-ms", "--base-currency", "--holding"]

/-- The options of a search. -/
def searchOptions : List String :=
  ["--algorithm", "--objectives", "--max-iterations", "--population-size", "--max-parameters",
   "--seed", "--workers", "--executor", "--runs-dir", "--run-dir"]

/-- What may follow the name of a command. -/
def grammar : Command → Grammar (Arguments α)
  | .backtest =>
    { flags := ["--trades"], options := sharedOptions, places := 2, leavesRest := false, set }
  | .optimize =>
    { flags := [], options := sharedOptions ++ searchOptions, places := 2, leavesRest := false
      set }

/-- What stands before and including the name of a command; it sets the level of messages. -/
def leading : Grammar String :=
  { flags := [], options := ["--log-level"], places := 1, leavesRest := true
    set := fun _ level _ => some level }

/-! ## Reading -/

/-- Reads a command line. -/
def read (line : List String) : Except Stop (Arguments α) := do
  let before ← leading.read line defaultLevel
  match before.values.head?.bind Command.ofName? with
  | none => throw .misuse
  | some command =>
    let after ← (grammar command).read before.rest (default command)
    if before.hasExtras || after.hasExtras then throw .misuse
    match after.values with
    | [strategyFile, priceFile] =>
      pure { after.settings with logLevel := before.settings, strategyFile, priceFile }
    | _ => throw .misuse

end Arguments

end StrategyLab.CommandLine
