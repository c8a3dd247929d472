/-
The tokens of JSON text: punctuation, strings and bare words, cut by an automaton that takes one
character at a time. A bare word is a number, a literal, or one of the words for infinities and
the undefined value.
-/
import StrategyLab.Number.Numeral

namespace StrategyLab.Json

/-- A token of JSON text. -/
inductive Token where
  | openArray
  | closeArray
  | openObject
  | closeObject
  | comma
  | colon
  | string (s : String)
  | word (cs : List Char)
  deriving Repr, DecidableEq, Inhabited

/-- The state of the automaton between two characters; what is read so far is kept reversed. -/
inductive Scan where
  /-- Between tokens. -/
  | between
  /-- Inside a bare word. -/
  | word (read : List Char)
  /-- Inside a string; the first half of a pair of units may be waiting for the second. -/
  | string (read : List Char) (high : Option Nat)
  /-- After a backslash. -/
  | escape (read : List Char) (high : Option Nat)
  /-- Inside the four digits of a unit. -/
  | unit (read : List Char) (high : Option Nat) (digits : Nat) (value : Nat)

/-- White space between tokens. -/
def isSpace (c : Char) : Bool := c = ' ' ∨ c = '\t' ∨ c = '\n' ∨ c = '\r'

/-- The character that stands in for half of a pair without the other half. -/
def replacement : Char := Char.ofNat 0xFFFD

/-- A half still waiting is replaced. -/
def settle (read : List Char) (high : Option Nat) : List Char :=
  if high.isSome then replacement :: read else read

/-- Punctuation. -/
def punctuation? (c : Char) : Option Token :=
  if c = '[' then some .openArray
  else if c = ']' then some .closeArray
  else if c = '\x7b' then some .openObject
  else if c = '\x7d' then some .closeObject
  else if c = ',' then some .comma
  else if c = ':' then some .colon
  else none

/-- The character that an escape letter stands for. -/
def unescape? (c : Char) : Option Char :=
  if c = '"' ∨ c = '\\' ∨ c = '/' then some c
  else if c = 'b' then some (Char.ofNat 8)
  else if c = 'f' then some (Char.ofNat 12)
  else if c = 'n' then some '\n'
  else if c = 'r' then some '\r'
  else if c = 't' then some '\t'
  else none

/-- The value of a hexadecimal digit. -/
def hexDigit? (c : Char) : Option Nat :=
  if '0' ≤ c ∧ c ≤ '9' then some (c.toNat - 48)
  else if 'a' ≤ c ∧ c ≤ 'f' then some (c.toNat - 87)
  else if 'A' ≤ c ∧ c ≤ 'F' then some (c.toNat - 55)
  else none

/-- The string after one more unit, joined with the half before it if they are a pair. -/
def withUnit (read : List Char) (high : Option Nat) (value : Nat) : Scan :=
  if 0xDC00 ≤ value ∧ value ≤ 0xDFFF then
    match high with
    | some h => .string (Char.ofNat (0x10000 + (h - 0xD800) * 0x400 + (value - 0xDC00)) :: read) none
    | none => .string (replacement :: read) none
  else if 0xD800 ≤ value ∧ value ≤ 0xDBFF then .string (settle read high) (some value)
  else .string (Char.ofNat value :: settle read high) none

/-- One character from between two tokens. -/
def stepBetween (c : Char) : Option (Scan × Option Token) :=
  if isSpace c then some (.between, none)
  else if c = '"' then some (.string [] none, none)
  else match punctuation? c with
    | some t => some (.between, some t)
    | none => some (.word [c], none)

/-- One character: the next state and the tokens that it completes, none for text that no JSON
text has. -/
def step (scan : Scan) (c : Char) : Option (Scan × List Token) :=
  match scan with
  | .between => (stepBetween c).map fun (s, t) => (s, t.toList)
  | .word read =>
    if isSpace c ∨ (punctuation? c).isSome then
      (stepBetween c).map fun (s, t) => (s, .word read.reverse :: t.toList)
    else some (.word (c :: read), [])
  | .string read high =>
    if c = '"' then some (.between, [.string (String.ofList (settle read high).reverse)])
    else if c = '\\' then some (.escape read high, [])
    else if c.toNat < 32 then none
    else some (.string (c :: settle read high) none, [])
  | .escape read high =>
    if c = 'u' then some (.unit read high 4 0, [])
    else (unescape? c).map fun d => (.string (d :: settle read high) none, [])
  | .unit read high digits value =>
    (hexDigit? c).map fun d =>
      let value := 16 * value + d
      if digits ≤ 1 then (withUnit read high value, []) else (.unit read high (digits - 1) value, [])

/-- The tokens from a state on, after those already found, which are kept reversed. -/
def tokensFrom (scan : Scan) (found : List Token) : List Char → Option (List Token)
  | [] =>
    match scan with
    | .between => some found.reverse
    | .word read => some (Token.word read.reverse :: found).reverse
    | _ => none
  | c :: rest =>
    match step scan c with
    | none => none
    | some (next, new) => tokensFrom next (new.reverse ++ found) rest

/-- The tokens of a text. -/
def tokens? (s : String) : Option (List Token) := tokensFrom .between [] s.toList

end StrategyLab.Json
