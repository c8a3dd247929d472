/-
Failures of workers, classified by what went wrong, each class with advice on what to do. The
class follows from the kind of the error, or else from words in its message.
-/
import StrategyLab.Text.Character
import StrategyLab.Text.Pieces
import StrategyLab.Value.Basic

namespace StrategyLab

/-- The classes of failures. -/
inductive FailureClass where
  | timeout
  | validation
  | calculation
  | network
  | unknown
  deriving Repr, DecidableEq, Inhabited

namespace FailureClass

/-- The written name. -/
def name : FailureClass → String
  | timeout => "timeout"
  | validation => "validation"
  | calculation => "calculation"
  | network => "network"
  | unknown => "unknown"

/-- What to do about a failure of a class. -/
def advice : FailureClass → Option String
  | timeout => some ("The backtest is taking too long. Try reducing the date range or " ++
      "simplifying the strategy.")
  | validation => some ("Check the strategy configuration. Ensure all required parameters are " ++
      "set correctly.")
  | calculation => some ("A calculation error occurred. Check strategy parameters for invalid " ++
      "values such as negative amounts.")
  | network => some ("A network error occurred while fetching price data. Check connectivity " ++
      "and try again.")
  | unknown => none

/-- Words that tell a class; the first class with a word in the message counts. -/
def markers : List (FailureClass × List String) :=
  [(timeout, ["timeout", "timed out"]), (validation, ["validation", "invalid", "missing"]),
   (calculation, ["calculation", "nan", "infinity"]),
   (network, ["network", "fetch", "connection"])]

/-- The kinds of errors that are always about the strategy or its data. -/
def validationKinds : List String := ["StructuralError", "DataError"]

/-- The class told by the words of a message, in any mix of cases. -/
def ofMessage (message : String) : FailureClass :=
  let text := (Text.lower message).toList
  match markers.find? fun (_, words) => words.any fun w => Text.hasPart w.toList text with
  | some (c, _) => c
  | none => unknown

/-- The class of an error with a message and, if it is known, a kind. -/
def of (message : String) (errorKind : Option String) : FailureClass :=
  if errorKind.any fun k => validationKinds.contains k then validation else ofMessage message

end FailureClass

/-- A failure that a worker reports, with the parameters of its request. -/
structure Failure (α : Type) where
  kind : FailureClass
  message : String
  advice : Option String
  parameters : Value α
  deriving Repr, Inhabited

namespace Failure

variable {α : Type}

/-- The failure behind an error message. -/
def classify (message : String) (errorKind : Option String) (parameters : Value α) : Failure α :=
  let kind := FailureClass.of message errorKind
  { kind, message, advice := kind.advice, parameters }

/-- The message with the advice. -/
def describe (f : Failure α) : String :=
  match f.advice with
  | some advice => f.message ++ ". " ++ advice
  | none => f.message

/-- Whether trying again may help: unless the strategy or its data are at fault. -/
def isRetryable (f : Failure α) : Bool := f.kind ≠ .validation

/-- The written form. -/
def toValue (f : Failure α) : Value α :=
  .record [("kind", .text f.kind.name), ("message", .text f.message),
    ("actionable", .ofOption (f.advice.map .text)), ("parameters", f.parameters)]

end Failure

end StrategyLab
