/-
What a command line consists of: options in any order among a fixed number of values. Options are
heeded in the order of the words. The first mistake ends the reading, and so does a wish for help;
values and options that do not belong there are found out at the end.
-/
import StrategyLab.CommandLine.Word

namespace StrategyLab.CommandLine

/-- What may stand on a command line; `σ` is what the options set. -/
structure Grammar (σ : Type) where
  /-- Options without an argument. -/
  flags : List String
  /-- Options with an argument. -/
  options : List String
  /-- How many values there are. -/
  places : Nat
  /-- Whether everything after the last value is left to somebody else. -/
  leavesRest : Bool
  /-- Sets an option; nothing if its argument is refused. -/
  set : (name argument : String) → σ → Option σ

/-- What has been read. -/
structure Reading (σ : Type) where
  settings : σ
  values : List String
  /-- Whether there was anything that does not belong there. -/
  hasExtras : Bool
  /-- What is left to somebody else. -/
  rest : List String

namespace Grammar

variable {σ : Type}

/-- The options that ask for help. -/
def helpNames : List String := ["-h", "--help"]

/-- The names of all options. -/
def names (g : Grammar σ) : List String := helpNames ++ g.flags ++ g.options

/-- Sets an option in what has been read. -/
def heed (g : Grammar σ) (name argument : String) (r : Reading σ) : Except Stop (Reading σ) :=
  match g.set name argument r.settings with
  | some settings => .ok { r with settings }
  | none => .error .misuse

/-- Heeds an option that needs no further word. -/
def heedAlone (g : Grammar σ) (name : String) (argument : Option String) (r : Reading σ) :
    Except Stop (Reading σ) :=
  match argument with
  | some s => if g.options.contains name then g.heed name s r else .error .misuse
  | none =>
    if helpNames.contains name then .error .help
    else if g.flags.contains name then g.heed name "" r
    else .error .misuse

/-- Reads words. -/
def readWords (g : Grammar σ) : List (String × Word) → Reading σ → Except Stop (Reading σ)
  | [], r => .ok r
  | (_, .separator) :: words, r => readWords g words r
  | (_, .unknown) :: words, r => readWords g words { r with hasExtras := true }
  | (_, .plain s) :: words, r =>
    if r.values.length < g.places then
      let next := { r with values := r.values ++ [s] }
      if g.leavesRest && next.values.length == g.places then
        .ok { next with rest := words.map (·.1) }
      else readWords g words next
    else readWords g words { r with hasExtras := true }
  | (_, .option name none) :: (text, .plain s) :: words, r =>
    if g.options.contains name then do
      let next ← g.heed name s r
      readWords g words next
    else do
      let next ← g.heedAlone name none r
      readWords g ((text, .plain s) :: words) next
  | (_, .option name argument) :: words, r => do
    let next ← g.heedAlone name argument r
    readWords g words next
termination_by words => words.length

/-- Reads a command line on which every value has to be there, from settings that hold unless an
option changes them. -/
def read (g : Grammar σ) (line : List String) (settings : σ) : Except Stop (Reading σ) := do
  let words ← Word.readAll g.names line
  let r ← g.readWords words { settings, values := [], hasExtras := false, rest := [] }
  if r.values.length < g.places then throw .misuse
  pure r

end Grammar

end StrategyLab.CommandLine
