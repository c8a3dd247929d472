/-
Running a command line. Files are looked up and the time is read in surroundings `μ`; everything
else follows from the arguments. A command that fails for want of a usable strategy or of usable
prices says so and ends with code one, a malformed command line ends with code two.
-/
import StrategyLab.CommandLine.Arguments
import StrategyLab.CommandLine.Outcome
import StrategyLab.Json.Reader
import StrategyLab.Optimization.Session
import StrategyLab.Price.Table
import StrategyLab.Schedule.Thread

namespace StrategyLab.Block

variable {α : Type} [Scalar α]

/-- The blocks of a stored strategy. -/
def listOfText (text : String) : Except (Fault α) (List (Block α)) :=
  match Json.read? text with
  | none => throw (.file .malformedJson)
  | some v => listOfValue v

end StrategyLab.Block

namespace StrategyLab.CommandLine

/-- What is found under a path. -/
inductive Entry where
  | file (text : String)
  | directory
  /-- The path leads through a file. -/
  | blocked
  | nothing
  deriving Repr, DecidableEq, Inhabited

/-- What a command depends on. -/
structure Outside (μ : Type → Type) where
  /-- What is found under a path. -/
  find : String → μ Entry
  /-- The nanoseconds since 1970-01-01T00:00. -/
  clock : μ Int

namespace Entry

/-- What is found under a path where there are only some files, given with their paths. -/
def among (files : List (String × String)) (path : String) : Entry :=
  let below (directory inner : String) : Bool := inner.startsWith (directory ++ "/")
  let wanted := Path.normal path
  let known := files.map fun (name, text) => (Path.normal name, text)
  match known.lookup wanted with
  | some text => .file text
  | none =>
    if wanted == Path.here || known.any fun (name, _) => below wanted name then .directory
    else if known.any fun (name, _) => below name wanted then .blocked
    else .nothing

/-- Whether there is anything. -/
def isThere : Entry → Bool
  | .file _ | .directory => true
  | .blocked | .nothing => false

end Entry

/-- Surroundings of some files, given with their paths, in which time stands still. -/
def Outside.ofFiles (files : List (String × String)) (clock : Int) : Outside Id :=
  { find := fun path => pure (Entry.among files path), clock := pure clock }

/-- A part of a command. -/
abbrev Action (μ : Type → Type) (α β : Type) := ExceptT (Halt α) μ β

namespace Action

variable {μ : Type → Type} [Monad μ] {α β : Type}

/-- A value, or the fault that halts the command. -/
def given (r : Except (Fault α) β) : Action μ α β :=
  match r with
  | .ok x => pure x
  | .error f => throw (.fault f)

/-- Halts the command with a complaint. -/
def complain (text : String) : Action μ α β := throw (.complaint text)

end Action

variable {μ : Type → Type} [Monad μ] {α : Type} [Scalar α]

/-! ## Files -/

/-- The text of a file. -/
def fileText (w : Outside μ) (path : String) : Action μ α String := do
  match ← ExceptT.lift (w.find path) with
  | .file text => pure text
  | .directory => throw (.fault (.file (.isADirectory path)))
  | .blocked => throw (.fault (.file (.notADirectory path)))
  | .nothing => throw (.fault (.file (.notFound path)))

/-- The path of the price file: in the data directory if there is none where it is said to be. -/
def pricePath (w : Outside μ) (written : String) : Action μ α String := do
  let path := Path.normal written
  if (← ExceptT.lift (w.find path)).isThere || Path.isAbsolute path then pure path
  else
    let settings : Settings α := Settings.default
    let other := Path.normal (settings.dataPath path)
    if (← ExceptT.lift (w.find other)).isThere then pure other else pure path

/-- The blocks of the strategy file. -/
def strategyOf (w : Outside μ) (a : Arguments α) : Action μ α (List (Block α)) := do
  let text ← fileText w (Path.normal a.strategyFile)
  Action.given (Block.listOfText text)

/-- The prices of the price file. -/
def pricesOf (w : Outside μ) (a : Arguments α) : Action μ α (Oracle α) := do
  let path ← pricePath w a.priceFile
  let text ← fileText w path
  Action.given (PriceTable.oracle path text)

/-! ## Arguments with a meaning -/

/-- The first and the last instant of a series with a known time. -/
def seriesRange (s : Series α) : Instant × Instant :=
  let known := (s.toList.map (·.time)).filter (· ≠ .missing)
  (known.head?.getD .missing, known.getLast?.getD .missing)

/-- The range of time of the samples of an oracle. -/
def dataRange (o : Oracle α) : Action μ α (Instant × Instant) :=
  match (o.tokens.filterMap o.series?).map seriesRange with
  | [] => Action.complain "Price file contains no usable prices"
  | first :: rest =>
    pure (rest.foldl (fun (start, stop) (s, t) =>
      (if s.isBefore start then s else start, if stop.isBefore t then t else stop)) first)

/-- The holdings that are written as tokens with amounts. -/
def readHoldings : List String → Object α → Action μ α (Object α)
  | [], holdings => pure holdings
  | item :: rest, holdings =>
    match Text.cutAt? '=' item.toList with
    | some (before, amount) =>
      let token := Text.trim (String.ofList before)
      if token.isEmpty then
        Action.complain ("Holding '" ++ item ++ "' must look like TOKEN=AMOUNT")
      else do
        let written : Value α := .text (String.ofList amount)
        let x ← Action.given (written.toReal.mapError .value)
        readHoldings rest (holdings.insert (.text (Text.upper token)) (.real x))
    | none => Action.complain ("Holding '" ++ item ++ "' must look like TOKEN=AMOUNT")

/-- An instant that is written, or one that stands in for an empty text. -/
def instantOr (written : String) (other : Instant) : Action μ α Instant :=
  if written.isEmpty then pure other else Action.given (Instant.ofValue (.text written))

/-- The configuration of the runs. -/
def runConfigOf (a : Arguments α) (o : Oracle α) : Action μ α (RunConfig α) := do
  let (first, last) ← dataRange o
  let start ← instantOr a.start first
  let stop ← instantOr a.stop last
  let holdings ← readHoldings a.holdings []
  Action.given (RunConfig.build (.instant start none) (.instant stop none) (.real a.capital)
    (.whole a.interval) (Text.upper a.baseCurrency) holdings .null)

/-- The objectives unless told otherwise. -/
def defaultObjectives : List String := ["sharpe_ratio", "max_drawdown"]

/-- The objectives between the commas of a text. -/
def readObjectives (written : String) : Action μ α (List String) :=
  let pieces := (Text.splitOn ',' written.toList).map fun cs => String.ofList (Text.trimChars cs)
  let names :=
    if written.isEmpty then defaultObjectives else pieces.filter fun name => !name.isEmpty
  let unknown := names.filter fun name => !Objective.names.contains name
  if unknown.isEmpty then pure names
  else
    Action.complain ("Unknown objective(s) " ++ commaList unknown ++ " (choose from " ++
      commaList Objective.names ++ ")")

/-! ## Commands -/

/-- Simulates the strategy and prints the report. -/
def runBacktest (w : Outside μ) (a : Arguments α) : Action μ α String := do
  let blocks ← strategyOf w a
  let oracle ← pricesOf w a
  let config ← runConfigOf a oracle
  let report ← Action.given (Simulation.run blocks oracle config)
  Action.given ((reportText report a.showsTrades).mapError .value)

/-- The directory of a run, named after the time if it is not given. -/
def runDirectoryOf (a : Arguments α) (clock : Int) : String :=
  match a.runDirectory with
  | some directory => Path.normal directory
  | none =>
    let digits := (Instant.render "_" clock).toList.filter fun c => c.isDigit || c == '_'
    Path.normal (Path.join a.runsDirectory ("optimization_" ++ String.ofList (digits.take 15)))

/-- The files of the directory of a run before it: the log that it goes on with. -/
def filesBefore (w : Outside μ) (directory : String) : Action μ α Directory := do
  match ← ExceptT.lift (w.find directory) with
  | .file _ => throw (.fault (.file (.alreadyThere directory)))
  | .blocked => throw (.fault (.file (.notADirectory directory)))
  | _ => do
    match ← ExceptT.lift (w.find (Path.join directory RunDirectory.solutionsFile)) with
    | .file text => pure [(RunDirectory.solutionsFile, text)]
    | _ => pure []

/-- What an optimization starts from. -/
structure Preparation (α : Type) where
  blocks : List (Block α)
  oracle : Oracle α
  config : SearchConfig α
  directory : String
  files : Directory

/-- Everything before an optimization. -/
def prepare (w : Outside μ) (a : Arguments α) : Action μ α (Preparation α) := do
  let blocks ← strategyOf w a
  let oracle ← pricesOf w a
  let parameters ← Action.given ((Parameter.ofBlocks blocks a.maxParameters).mapError .value)
  if parameters.isEmpty then Action.complain "Strategy exposes no optimizable parameters"
  let objectives ← readObjectives a.objectives
  let run ← runConfigOf a oracle
  let config ← Action.given (SearchConfig.build parameters objectives (.text a.algorithm)
    a.maxIterations run a.populationSize a.seed)
  let clock ← ExceptT.lift w.clock
  let directory := runDirectoryOf a clock
  let files ← filesBefore w directory
  pure { blocks, oracle, config, directory, files }

/-- The time in seconds. -/
def seconds (w : Outside μ) : μ α := do
  let clock ← w.clock
  pure (Scalar.ofInt clock / 1000000000.0)

/-- The surroundings of an optimization. Without workers nothing can be evaluated. -/
def surroundings (w : Outside μ) (a : Arguments α) (p : Preparation α) :
    Surroundings (StateT (Session (Host α) α) μ) Twister α :=
  let usual := Session.surroundings (seconds w) WindowPlan.default SchedulerPlan.default
    (Host.pool 1 (.ok p.oracle)) fun _ => pure ()
  if a.workers.any (· < 0) then
    { usual with
      evaluate := fun e _ assignment => pure (do
        let _ ← e.jobs assignment
        throw (.pool .noWorkers)) }
  else usual

/-- Searches for parameters: the printed summary, or what halted the search, and the files of the
run. -/
def search (w : Outside μ) (a : Arguments α) (p : Preparation α) :
    μ (Except (Halt α) String × Directory) := do
  let session : Session (Host α) α :=
    { scheduler := Scheduler.empty, pool := Host.fresh, directory := some p.files }
  let run := (Optimizer.optimize (surroundings w a p) p.blocks p.config).run Optimizer.idle
  let ((result, _), after) ← run.run session
  let text := match result with
    | .ok r => .ok (summaryText r p.directory)
    | .error f => .error (.fault f)
  pure (text, after.directory.getD [])

/-! ## The program -/

/-- The levels of messages that include errors. -/
def errorLevels : List String := ["NOTSET", "DEBUG", "INFO", "WARN", "WARNING", "ERROR"]

/-- The levels of messages. -/
def levels : List String := errorLevels ++ ["CRITICAL", "FATAL"]

/-- What comes of a command that printed a text or was halted. -/
def outcomeOf (level : String) (r : Except (Halt α) String) (saved : Option (String × Directory)) :
    Outcome α :=
  match r with
  | .ok output => { ending := .code 0, output, log := [], saved }
  | .error (.complaint text) => { ending := .complaint text, output := "", log := [], saved }
  | .error (.fault f) =>
    if f.kind.endsCommand then
      { ending := .code 1, output := "", saved
        log := if errorLevels.contains level then [f.message] else [] }
    else { ending := .fault f, output := "", log := [], saved }

/-- Runs a command with its arguments. -/
def runCommand (w : Outside μ) (a : Arguments α) : μ (Outcome α) := do
  let level := Text.upper a.logLevel
  if !levels.contains level then
    pure (outcomeOf level (.error (.fault (.request (.unknownLogLevel level)))) none)
  else
    match a.command with
    | .backtest => do
      let r ← (runBacktest w a).run
      pure (outcomeOf level r none)
    | .optimize => do
      match ← (prepare w a).run with
      | .error halt => pure (outcomeOf level (.error halt) none)
      | .ok p => do
        let (r, files) ← search w a p
        pure (outcomeOf level r (some (p.directory, files)))

/-- Runs a command line. -/
def run (w : Outside μ) (line : List String) : μ (Outcome α) :=
  match Arguments.read line with
  | .ok a => runCommand w a
  | .error .help => pure { ending := .code 0, output := "", log := [], saved := none }
  | .error .misuse => pure { ending := .code 2, output := "", log := [], saved := none }

end StrategyLab.CommandLine
