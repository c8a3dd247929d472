/-
Everything that can go wrong, by cause. Each fault has a kind, whose name is part of what the
program reports, and an explanation.
-/
import StrategyLab.Indicator
import StrategyLab.Ledger.Basic
import StrategyLab.Time.Cron
import StrategyLab.Value.Reading

namespace StrategyLab

/-! ## Causes by domain -/

/-- A strategy or a request is malformed; the run cannot start. -/
inductive StructuralFault (α : Type) where
  | blockWithoutKind (id : Value α)
  | unknownCategory (id : Value α) (category : String)
  | unknownBlockKinds (kinds : List String)
  | emptyStrategy
  | noTokens
  | endNotAfterStart
  | nonPositiveCapital
  | nonPositiveInterval
  | unknownAlgorithm (name : Value α)
  | noObjective
  | unknownObjectives (names : List String)
  | nonPositiveIterations
  | invalidStrategy (details : String)
  deriving Repr, Inhabited

/-- Price data is missing or unusable. -/
inductive DataFault where
  | frameWithoutColumns
  | noSamples
  | noTimestampColumn (path : String)
  | nothingFetched (tokens : List String)
  | noUsableStep
  | workerNotReady
  deriving Repr, DecidableEq, Inhabited

/-- Bad parameters or a missing price: the block is not executed. -/
inductive Rejection (α : Type) where
  | missingParameter (block key : String)
  | invalidValue (block key : String) (value : Value α)
  | notPositive (block key : String)
  | invalidCondition (text : String)
  | missingPrice (token : String)
  | badSchedule (cause : CronFault)
  | unsupportedIndicator (name : String)
  | negativeSlippage (block : String)
  | badLiquidity (block : String)
  | unsupportedExitCondition (text : String)
  | badAllocation (block : String)
  deriving Repr, Inhabited

/-- A request outside of what an operation accepts. -/
inductive RequestFault where
  | unsupportedGranularity (name : String)
  | unknownParameterKind (name : String)
  | discreteWithoutValues (key : String)
  | noObjective
  | populationTooSmall
  | windowLengths
  | windowOrder
  | windowsTooLong
  | unknownExecutor (name : String)
  | settingNotPositive (name : String)
  | settingExecutor
  | seedOutOfRange
  | missingEnds
  | durationUndefined
  | durationOutOfRange
  | priceNotNumeric
  | unevenColumns
  | unknownLogLevel (name : String)
  | unknownRequest (type : String)
  deriving Repr, DecidableEq, Inhabited

/-- A file cannot be read. -/
inductive FileFault where
  | notFound (path : String)
  | malformedJson
  | emptyTable
  | isADirectory (path : String)
  | notADirectory (path : String)
  | alreadyThere (path : String)
  | malformedTable
  deriving Repr, DecidableEq, Inhabited

/-- A worker pool fails on its own account. -/
inductive PoolFault where
  /-- The result of a task cannot be used. -/
  | brokenResult (message : String)
  /-- A task cannot be handed in. -/
  | refusedTask (message : String)
  /-- The workers could not be started. -/
  | notStarted
  /-- There has to be a worker. -/
  | noWorkers
  deriving Repr, DecidableEq, Inhabited

/-- Everything that can go wrong. -/
inductive Fault (α : Type) where
  | value (cause : ValueFault α)
  | time (cause : TimeFault)
  | ledger (cause : LedgerFault α)
  | cron (cause : CronFault)
  | indicator (cause : IndicatorFault)
  | structural (cause : StructuralFault α)
  | data (cause : DataFault)
  | rejected (cause : Rejection α)
  | request (cause : RequestFault)
  | file (cause : FileFault)
  | pool (cause : PoolFault)
  /-- Every walk-forward window of a candidate failed. -/
  | allWindowsFailed (candidate reason : String)
  /-- An optimization is already running. -/
  | alreadyRunning
  deriving Repr, Inhabited

/-! ## Kinds -/

/-- The kinds of faults. -/
inductive FaultKind where
  | structural
  | data
  | ledger
  | insufficientBalance
  | missingPosition
  | optimization
  | rejected
  | value
  | mismatch
  | noAttribute
  | key
  | index
  | overflow
  | zeroDivision
  | dateParse
  | outOfBoundsDatetime
  | outOfBoundsTimedelta
  | emptyData
  | parser
  | fileNotFound
  | isADirectory
  | notADirectory
  | fileExists
  | jsonDecode
  | runtime
  | brokenPool
  deriving Repr, DecidableEq, Inhabited

/-- The reported name of a kind. -/
def FaultKind.name : FaultKind → String
  | structural => "StructuralError"
  | data => "DataError"
  | ledger => "LedgerError"
  | insufficientBalance => "InsufficientBalance"
  | missingPosition => "MissingPosition"
  | optimization => "OptimizationError"
  | rejected => "BlockRejected"
  | value => "ValueError"
  | mismatch => "TypeError"
  | noAttribute => "AttributeError"
  | key => "KeyError"
  | index => "IndexError"
  | overflow => "OverflowError"
  | zeroDivision => "ZeroDivisionError"
  | dateParse => "DateParseError"
  | outOfBoundsDatetime => "OutOfBoundsDatetime"
  | outOfBoundsTimedelta => "OutOfBoundsTimedelta"
  | emptyData => "EmptyDataError"
  | parser => "ParserError"
  | fileNotFound => "FileNotFoundError"
  | isADirectory => "IsADirectoryError"
  | notADirectory => "NotADirectoryError"
  | fileExists => "FileExistsError"
  | jsonDecode => "JSONDecodeError"
  | runtime => "RuntimeError"
  | brokenPool => "BrokenThreadPool"

/-- Whether a kind is one of failed simulations or optimizations, which end a command with a
message. -/
def FaultKind.endsCommand : FaultKind → Bool
  | structural | data | ledger | insufficientBalance | missingPosition | optimization => true
  | _ => false

variable {α : Type}

/-- The kind of a value fault. -/
def ValueFault.kind : ValueFault α → FaultKind
  | notReal _ | notWhole _ | undefinedWhole | notAPair .. | wrongCount .. => .value
  | infiniteWhole | tooLarge => .overflow
  | notAnObject _ => .noAttribute
  | missingKey _ => .key
  | noSuchItem => .index
  | zeroDivisor | zeroModulus => .zeroDivision
  | realFromKind _ | wholeFromKind _ | incomparable .. | inoperable .. | notIterable _
  | notIndexable _ | notAKey _ | fieldNotASequence _ | missingFields .. | unknownField ..
  | instantFromKind _ | notWritable _ => .mismatch

/-- The kind of a ledger fault. -/
def LedgerFault.kind : LedgerFault α → FaultKind
  | insufficientBalance .. => .insufficientBalance
  | unknownPosition _ | noCollateral _ | noDebt .. | nothingSupplied .. => .missingPosition
  | reductionTooLarge .. => .ledger
  | negativeCredit .. | negativeDebit .. | unknownPositionKind _ | nonPositiveCapital => .value
  | amountOutOfRange => .overflow

/-- The kind of a fault. -/
def Fault.kind : Fault α → FaultKind
  | value cause => cause.kind
  | time (.unreadable _) => .dateParse
  | time (.tooShort _) => .value
  | time .outOfRange => .outOfBoundsDatetime
  | ledger cause => cause.kind
  | cron .zeroStep => .zeroDivision
  | cron _ => .value
  | indicator .zeroPeriod => .zeroDivision
  | indicator .windowTooLarge => .overflow
  | indicator _ => .value
  | structural _ => .structural
  | data _ => .data
  | rejected _ => .rejected
  | request .durationOutOfRange => .outOfBoundsTimedelta
  | request .windowsTooLong => .overflow
  | request _ => .value
  | file (.notFound _) => .fileNotFound
  | file (.isADirectory _) => .isADirectory
  | file (.notADirectory _) => .notADirectory
  | file (.alreadyThere _) => .fileExists
  | file .malformedJson => .jsonDecode
  | file .emptyTable => .emptyData
  | file .malformedTable => .parser
  | pool (.brokenResult _) => .value
  | pool (.refusedTask _) => .runtime
  | pool .notStarted => .brokenPool
  | pool .noWorkers => .value
  | allWindowsFailed .. => .optimization
  | alreadyRunning => .runtime

/-! ## Explanations -/

variable [Scalar α]

/-- Names in one line. -/
def commaList (names : List String) : String := String.intercalate ", " names

/-- The explanation of a structural fault. -/
def StructuralFault.message : StructuralFault α → String
  | blockWithoutKind id => "Block " ++ id.quoted ++ " has no kind"
  | unknownCategory id category =>
    "Block " ++ id.quoted ++ " has unknown category " ++ Text.quote category
  | unknownBlockKinds kinds => "Unknown block kind: " ++ commaList kinds
  | emptyStrategy => "Cannot backtest empty strategy"
  | noTokens => "Strategy does not reference any tokens"
  | endNotAfterStart => "end_date must be after start_date"
  | nonPositiveCapital => "initial_capital must be greater than 0"
  | nonPositiveInterval => "rebalance_interval must be greater than 0"
  | unknownAlgorithm name => "Unknown algorithm: " ++ name.shown
  | noObjective => "At least one objective is required"
  | unknownObjectives names => "Unknown objective: " ++ commaList names
  | nonPositiveIterations => "max_iterations must be greater than 0"
  | invalidStrategy details => "Invalid strategy: " ++ details

/-- The explanation of a data fault. -/
def DataFault.message : DataFault → String
  | frameWithoutColumns => "Price frame must include 'timestamp' and 'price' columns"
  | noSamples => "No price samples available"
  | noTimestampColumn path => "Price file " ++ path ++ " must include a 'timestamp' column"
  | nothingFetched tokens => "No price data fetched for " ++ commaList tokens
  | noUsableStep => "No usable price data for any simulation step"
  | workerNotReady => "Worker price data not initialised"

/-- The explanation of a rejection. -/
def Rejection.message : Rejection α → String
  | missingParameter block key => block ++ ": missing required parameter '" ++ key ++ "'"
  | invalidValue block key value =>
    block ++ ": invalid value for '" ++ key ++ "': " ++ value.quoted
  | notPositive block key => block ++ ": '" ++ key ++ "' must be greater than 0"
  | invalidCondition text => "Invalid condition: " ++ text
  | missingPrice token => "Missing price data for " ++ token
  | badSchedule cause => cause.message
  | unsupportedIndicator name => "Unsupported indicator: " ++ name
  | negativeSlippage block => block ++ ": 'slippage' cannot be negative"
  | badLiquidity block => block ++ ": liquidity amounts must be non-negative and not both zero"
  | unsupportedExitCondition text => "Unsupported exit condition: " ++ Text.quote text
  | badAllocation block => block ++ ": 'target_allocation' must map tokens to percentages"

/-- The explanation of a request fault. -/
def RequestFault.message : RequestFault → String
  | unsupportedGranularity name => "Unsupported granularity: " ++ name
  | unknownParameterKind name => "Unknown parameter kind: " ++ name
  | discreteWithoutValues key => "Discrete parameter " ++ key ++ " needs values"
  | noObjective => "At least one objective is required"
  | populationTooSmall => "population_size must be at least 2"
  | windowLengths => "Walk-forward window lengths must be positive"
  | windowOrder => "Walk-forward range must end after it starts"
  | windowsTooLong => "Python int too large to convert to C long"
  | unknownExecutor name => "Unknown executor: " ++ name
  | settingNotPositive name => name ++ " must be positive"
  | settingExecutor => "OPTIMIZER_EXECUTOR must be 'process' or 'thread'"
  | seedOutOfRange => "Seed must be between 0 and 2**32 - 1"
  | missingEnds => "Neither `start` nor `end` can be NaT"
  | durationUndefined => "cannot convert float NaN to integer"
  | durationOutOfRange => "Duration out of range"
  | priceNotNumeric => "could not convert string to float"
  | unevenColumns => "All arrays must be of the same length"
  | unknownLogLevel name => "Unknown level: " ++ Text.quote name
  | unknownRequest type => "Unknown request type: " ++ type

/-- The explanation of a pool fault. -/
def PoolFault.message : PoolFault → String
  | brokenResult message => message
  | refusedTask message => message
  | notStarted => "A thread initializer failed, the thread pool is not usable anymore"
  | noWorkers => "max_workers must be greater than 0"

/-- The explanation of a fault. -/
def Fault.message : Fault α → String
  | value cause => cause.message
  | time (.unreadable text) => "Unknown datetime string format, unable to parse: " ++ text
  | time (.tooShort text) => "could not convert string to Timestamp: " ++ text
  | time .outOfRange => "Out of bounds nanosecond timestamp"
  | ledger cause => cause.message
  | cron cause => cause.message
  | indicator .zeroPeriod => "float division by zero"
  | indicator .windowOutOfRange => "window out of range"
  | indicator .windowTooLarge => "window too large"
  | indicator (.unsupported name) => "Unsupported indicator: " ++ name
  | structural cause => cause.message
  | data cause => cause.message
  | rejected cause => cause.message
  | request cause => cause.message
  | file (.notFound path) => "[Errno 2] No such file or directory: " ++ Text.quote path
  | file (.isADirectory path) => "[Errno 21] Is a directory: " ++ Text.quote path
  | file (.notADirectory path) => "[Errno 20] Not a directory: " ++ Text.quote path
  | file (.alreadyThere path) => "[Errno 17] File exists: " ++ Text.quote path
  | file .malformedJson => "Expecting value"
  | file .emptyTable => "No columns to parse from file"
  | file .malformedTable => "Error tokenizing data"
  | pool cause => cause.message
  | allWindowsFailed candidate reason =>
    "All walk-forward windows failed for " ++ candidate ++ ": " ++ reason
  | alreadyRunning => "Optimization already running"

/-! ## Use in one notation -/

instance : MonadLift (Except (ValueFault α)) (Except (Fault α)) :=
  ⟨fun r => r.mapError .value⟩

instance : MonadLift (Except TimeFault) (Except (Fault α)) := ⟨fun r => r.mapError .time⟩

instance : MonadLift (Except (LedgerFault α)) (Except (Fault α)) :=
  ⟨fun r => r.mapError .ledger⟩

instance : MonadLift (Except CronFault) (Except (Fault α)) := ⟨fun r => r.mapError .cron⟩

instance : MonadLift (Except IndicatorFault) (Except (Fault α)) :=
  ⟨fun r => r.mapError .indicator⟩

end StrategyLab
