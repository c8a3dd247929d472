/-
The directory of a run: a log of solutions, one record a line, and files with the configuration,
the latest checkpoint and the result. A file is replaced as a whole: its text is written beside
it first. Lines of the log that hold no record are skipped.

Records are values as they are written to files. A record is made of objects with names as keys,
lists, texts, whole numbers, finite reals, truth values and nothing; infinities and the undefined
value become words, and every other kind of value its written form.
-/
import StrategyLab.Fault
import StrategyLab.Json.Printer
import StrategyLab.Json.Reader
import StrategyLab.Text.Pieces
import StrategyLab.Value.Basic

namespace StrategyLab

namespace Object

variable {α : Type} [Scalar α]

/-- The fields with names as keys; of two with one name the last one counts, in the place of the
first. -/
def renamed (fields : Object α) : Object α :=
  ofPairs (fields.map fun (k, v) => (.text k.shown, v))

end Object

namespace Value

variable {α : Type} [Scalar α]

/-- A scalar, or the word for one that is not finite. -/
def finiteOrWord (x : α) : Value α :=
  if Scalar.isFinite x then .real x else .text (Scalar.text x)

mutual
/-- The record of a value. -/
def toRecord : Value α → Value α
  | .object fields | .entity fields => .object (Object.renamed (toRecordFields fields))
  | .list items | .tuple items | .array items => .list (toRecordItems items)
  | .instant (.known ns) (some offset) =>
    .text (Instant.render "T" (ns + offset) ++ Instant.offsetText offset)
  | .instant t _ => .text t.text
  | .num (.real x) => finiteOrWord x
  | .narrow x => finiteOrWord x.value
  | .narrowTruth b => .text (if b then "True" else "False")
  | .path s => .text s
  | v => v

/-- The records of items. -/
def toRecordItems : List (Value α) → List (Value α)
  | [] => []
  | v :: rest => toRecord v :: toRecordItems rest

/-- The fields with records as values. -/
def toRecordFields : List (Key α × Value α) → List (Key α × Value α)
  | [] => []
  | (k, v) :: rest => (k, toRecord v) :: toRecordFields rest
end

end Value

end StrategyLab

namespace StrategyLab

/-- The files of a directory with their texts. -/
abbrev Directory := List (String × String)

namespace Directory

/-! ## Files -/

/-- The text of a file. -/
def text? (d : Directory) (file : String) : Option String := d.lookup file

/-- The directory without a file. -/
def remove (d : Directory) (file : String) : Directory := d.filter fun (name, _) => name != file

/-- The directory with the text of a file. -/
def write (d : Directory) (file text : String) : Directory := (file, text) :: d.remove file

/-- The directory with a text added at the end of a file. -/
def append (d : Directory) (file text : String) : Directory :=
  d.write file ((d.text? file).getD "" ++ text)

/-- The directory with a file in the place of another. -/
def replace (d : Directory) (source target : String) : Directory :=
  match d.text? source with
  | some text => (d.remove source).write target text
  | none => d

/-- The names of the files, in order. -/
def names (d : Directory) : List String := (d.map (·.1)).mergeSort (· ≤ ·)

/-- The text of a file with unified line ends. -/
def read? (d : Directory) (file : String) : Option String :=
  (d.text? file).map fun s => String.ofList (Text.unifyLineEnds s.toList)

end Directory

namespace RunDirectory

/-! ## Names -/

/-- The log of solutions. -/
def solutionsFile : String := "solutions.jsonl"

/-- The file of the configuration. -/
def configFile : String := "config.json"

/-- The file of the latest checkpoint. -/
def checkpointFile : String := "checkpoint.json"

/-- The file of the result. -/
def resultFile : String := "result.json"

/-- The file beside another one in which its new text is written first. -/
def draftOf (file : String) : String :=
  String.ofList (file.toList.take (file.toList.length - 5)) ++ ".tmp"

/-! ## Steps -/

/-- What happens to a directory at once. -/
inductive Step where
  /-- A line is added at the end of a file. -/
  | append (file text : String)
  /-- A file is written. -/
  | write (file text : String)
  /-- A file takes the place of another. -/
  | replace (source target : String)
  deriving Repr, DecidableEq, Inhabited

/-- The directory after a step. -/
def after (d : Directory) : Step → Directory
  | .append file text => d.append file text
  | .write file text => d.write file text
  | .replace source target => d.replace source target

/-- The directory after several steps. -/
def afterAll (d : Directory) (steps : List Step) : Directory := steps.foldl after d

variable {α : Type} [Scalar α]

/-- The steps that put a record into a file. -/
def stepsToWrite (file : String) (v : Value α) : Except (ValueFault α) (List Step) := do
  let text ← Json.render ⟨true, false, false⟩ 0 v.toRecord
  pure [.write (draftOf file) text, .replace (draftOf file) file]

/-- The step that adds a record to the log. -/
def stepsToAppend (v : Value α) : Except (ValueFault α) (List Step) := do
  let text ← Json.render ⟨false, false, false⟩ 0 v.toRecord
  pure [.append solutionsFile (text ++ "\n")]

/-! ## Writing -/

/-- Puts a record into a file. -/
def write (d : Directory) (file : String) (v : Value α) : Except (ValueFault α) Directory :=
  (stepsToWrite file v).map (afterAll d)

/-- Adds a record to the log. -/
def appendSolution (d : Directory) (v : Value α) : Except (ValueFault α) Directory :=
  (stepsToAppend v).map (afterAll d)

/-! ## Reading -/

/-- The record in a file, none without the file. -/
def load (d : Directory) (file : String) : Except (Fault α) (Option (Value α)) :=
  match d.read? file with
  | none => pure none
  | some text =>
    match Json.read? text with
    | some v => pure (some v)
    | none => throw (.file .malformedJson)

/-- The record of the configuration. -/
def loadConfig (d : Directory) : Except (Fault α) (Option (Value α)) := load d configFile

/-- The record of the latest checkpoint, none if it cannot be read. -/
def loadCheckpoint (d : Directory) : Option (Value α) :=
  (d.read? checkpointFile).bind Json.read?

/-- The record in a line of the log. -/
def record? (line : String) : Option (Value α) :=
  let text := Text.trim line
  if text.isEmpty then none else Json.read? text

/-- The records of the log, in order. -/
def loadSolutions (d : Directory) : List (Value α) :=
  match d.read? solutionsFile with
  | none => []
  | some text => (Text.lines text).filterMap record?

end RunDirectory

end StrategyLab
