/-
Words of a command line. A word that begins with a dash names an option, by its whole name or by
a beginning that no other option has; its argument may follow after an equals sign. Negative
numbers and words with a blank are plain. After the separator every word is plain.
-/
import StrategyLab.Text.Pieces
import StrategyLab.Text.Character

namespace StrategyLab.CommandLine

/-- Why a command line asks for nothing to be run. -/
inductive Stop where
  /-- It asks for help. -/
  | help
  /-- It is malformed. -/
  | misuse
  deriving Repr, DecidableEq, Inhabited

/-- What a word counts as. -/
inductive Word where
  /-- A value. -/
  | plain (text : String)
  /-- What ends the options. -/
  | separator
  /-- An option, with the argument that is written in the same word. -/
  | option (name : String) (argument : Option String)
  /-- An option that is not known. -/
  | unknown
  deriving Repr, DecidableEq, Inhabited

namespace Word

/-- A minus sign before digits, which may have a point among or before them. -/
def isNegative (cs : List Char) : Bool :=
  match cs with
  | '-' :: rest =>
    let before := rest.takeWhile Text.isDigit
    match rest.drop before.length with
    | [] => !before.isEmpty
    | '.' :: after => !after.isEmpty && after.all Text.isDigit
    | _ => false
  | _ => false

/-- The parts of a word before and after its first equals sign. -/
def parts (s : String) : String × Option String :=
  match Text.cutAt? '=' s.toList with
  | some (name, argument) => (String.ofList name, some (String.ofList argument))
  | none => (s, none)

/-- The options that a word may stand for without being the name of one: those with two dashes
that it begins, or the one with a single letter that begins it. -/
def candidates (names : List String) (s : String) : List (String × Option String) :=
  if s.startsWith "--" then
    let (beginning, argument) := parts s
    (names.filter fun name => name.startsWith beginning).map fun name => (name, argument)
  else
    let letter := String.ofList (s.toList.take 2)
    (names.filter (· == letter)).map fun name => (name, some (String.ofList (s.toList.drop 2)))

/-- What a word counts as beside options with given names. -/
def read (names : List String) (s : String) : Except Stop Word :=
  if !s.startsWith "-" || s == "-" then .ok (.plain s)
  else if names.contains s then .ok (.option s none)
  else
    let (name, argument) := parts s
    if argument.isSome && names.contains name then .ok (.option name argument)
    else
      match candidates names s with
      | [(name, argument)] => .ok (.option name argument)
      | _ :: _ => .error .misuse
      | [] => .ok (if isNegative s.toList || s.toList.contains ' ' then .plain s else .unknown)

/-- The words of a command line, each with its text. -/
def readAll (names : List String) : List String → Except Stop (List (String × Word))
  | [] => .ok []
  | s :: rest =>
    if s == "--" then .ok ((s, .separator) :: rest.map fun t => (t, .plain t))
    else do
      let word ← read names s
      let others ← readAll names rest
      pure ((s, word) :: others)

end Word

end StrategyLab.CommandLine
