/-
Numbers read from text. White space around a number is ignored, digits may be of any script, and
single underscores may stand between digits. A real may have a point, an exponent, or be one of
the words for infinity and the undefined value.
-/
import StrategyLab.Number.Scalar
import StrategyLab.Text.Pieces
import StrategyLab.Text.Character

namespace StrategyLab.Numeral

/-! ## Whole numbers -/

/-- The value of a sequence of digits read after `value`, an underscore allowed only between two
of them; `atDigit` says that the last character was a digit. -/
def digitsFrom? (value : Nat) (atDigit : Bool) : List Char → Option Nat
  | [] => if atDigit then some value else none
  | c :: rest =>
    match Text.digitValue? c with
    | some d => digitsFrom? (10 * value + d) true rest
    | none => if c = '_' ∧ atDigit then digitsFrom? value false rest else none

/-- A sequence of digits. -/
def digits? (cs : List Char) : Option Nat := digitsFrom? 0 false cs

/-- A sign, if there is one, and the rest: whether it was a minus. -/
def signed (cs : List Char) : Bool × List Char :=
  match cs with
  | '-' :: rest => (true, rest)
  | '+' :: rest => (false, rest)
  | _ => (false, cs)

/-- A whole number: an optional sign and digits. -/
def whole? (s : String) : Option Int :=
  let (minus, rest) := signed (Text.trimChars s.toList)
  (digits? rest).map fun n => if minus then -Int.ofNat n else Int.ofNat n

/-! ## Reals -/

/-- The scalar `significand · 10^power`. Powers far outside the range of every scalar are not
computed with. -/
def ofDecimal {α : Type} [Scalar α] (significand : Nat) (power : Int) : α :=
  if significand = 0 then 0.0
  else
    let leading := power + Int.ofNat (Nat.toDigits 10 significand).length
    if leading < -400 then 0.0
    else if 400 < leading then Scalar.infinity
    else if power < 0 then OfScientific.ofScientific significand true power.natAbs
    else OfScientific.ofScientific significand false power.natAbs

/-- The leading run of digits and underscores, and the rest. -/
def digitRun (cs : List Char) : List Char × List Char :=
  cs.span fun c => Text.isDigit c || c == '_'

/-- An exponent mark with its signed digits, or nothing. -/
def exponent? : List Char → Option Int
  | [] => some 0
  | c :: rest =>
    if c = 'e' ∨ c = 'E' then
      let (minus, ds) := signed rest
      (digits? ds).map fun n => if minus then -Int.ofNat n else Int.ofNat n
    else none

/-- Digits with an optional point and exponent: the significand and the power of ten. -/
def decimal? (cs : List Char) : Option (Nat × Int) :=
  let (before, rest) := digitRun cs
  let (after, rest) := match rest with
    | '.' :: more => digitRun more
    | _ => ([], rest)
  let count (ds : List Char) : Nat := (ds.filter Text.isDigit).length
  let part (ds : List Char) : Option Nat := if ds.isEmpty then some 0 else digits? ds
  if before.isEmpty ∧ after.isEmpty then none
  else do
    let high ← part before
    let low ← part after
    let e ← exponent? rest
    pure (high * Nat.pow 10 (count after) + low, e - Int.ofNat (count after))

/-- The words for values that are no numbers, in any mix of cases. -/
def word? {α : Type} [Scalar α] (cs : List Char) : Option α :=
  let w := String.ofList (cs.map Char.toLower)
  if w = "inf" ∨ w = "infinity" then some Scalar.infinity
  else if w = "nan" then some Scalar.undefined
  else none

/-- A real number. -/
def real? {α : Type} [Scalar α] (s : String) : Option α :=
  let (minus, cs) := signed (Text.trimChars s.toList)
  let found : Option α := match word? cs with
    | some x => some x
    | none => (decimal? cs).map fun (m, p) => ofDecimal m p
  found.map fun x => if minus then -x else x

end StrategyLab.Numeral
