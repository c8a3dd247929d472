/-
Instants with nanosecond resolution, counted from 1970-01-01T00:00 in universal time. An instant
may be missing: nothing is before, after or equal to a missing one. Instants lie in the range of
64-bit nanosecond counts, whose least value stands for the missing instant.
-/
import StrategyLab.Number.Decimal
import StrategyLab.Time.Calendar

namespace StrategyLab

/-- A point in time, or none. -/
inductive Instant where
  /-- No point in time. -/
  | missing
  /-- So many nanoseconds after 1970-01-01T00:00. -/
  | known (nanoseconds : Int)
  deriving Repr, DecidableEq, Inhabited

/-- Why a text or a number gives no instant. -/
inductive TimeFault where
  /-- The text has none of the known forms, or names no day or time of day. -/
  | unreadable (text : String)
  /-- The text is a single character that is no digit. -/
  | tooShort (text : String)
  /-- The instant lies outside the range. -/
  | outOfRange
  deriving Repr, DecidableEq, Inhabited

namespace Instant

/-! ## Durations and range -/

/-- Nanoseconds in a millisecond. -/
def perMillisecond : Int := 1000000

/-- Nanoseconds in a second. -/
def perSecond : Int := 1000000000

/-- Nanoseconds in an hour. -/
def perHour : Int := 3600 * perSecond

/-- Nanoseconds in a day. -/
def perDay : Int := 86400 * perSecond

/-- The largest count; its negative is the least. -/
def limit : Int := Int.pow 2 63 - 1

/-- The count lies in the range of instants. -/
def inRange (ns : Int) : Bool := -limit ≤ ns ∧ ns ≤ limit

/-- The instant of a count in range. -/
def ofNanoseconds (ns : Int) : Except TimeFault Instant :=
  if inRange ns then .ok (.known ns) else .error .outOfRange

/-- The instant of a count of milliseconds. -/
def ofMilliseconds (ms : Int) : Except TimeFault Instant := ofNanoseconds (ms * perMillisecond)

/-- The count, a missing instant standing at the value below the range. -/
def count : Instant → Int
  | missing => -Int.pow 2 63
  | known ns => ns

/-- Strictly earlier; never so when either is missing. -/
def isBefore : Instant → Instant → Bool
  | known a, known b => a < b
  | _, _ => false

/-- Not later; never so when either is missing. -/
def isAtMost : Instant → Instant → Bool
  | known a, known b => a ≤ b
  | _, _ => false

/-- The time from the second to the first, if both are known. -/
def minus? : Instant → Instant → Option Int
  | known a, known b => some (a - b)
  | _, _ => none

/-- The time from the second to the first, none if either is missing; a time beyond the range of
counts cannot be measured. -/
def elapsed? (a b : Instant) : Except TimeFault (Option Int) :=
  match a.minus? b with
  | none => .ok none
  | some ns => if inRange ns then .ok (some ns) else .error .outOfRange

/-- The whole days since 1970-01-01. -/
def dayNumber (ns : Int) : Int := ns.fdiv perDay

/-! ## Text -/

/-- A number filled with zeros up to a width. -/
def padded (width : Nat) (n : Nat) : String :=
  let ds := Decimal.digits n
  String.ofList (List.replicate (width - ds.length) '0' ++ ds)

/-- Date and time of day of a count, with a separator, to the second, the microsecond or the
nanosecond, whichever is needed. -/
def render (separator : String) (ns : Int) : String :=
  let days := dayNumber ns
  let ofDay := (ns - days * perDay).toNat
  let date := Calendar.Date.ofDays days
  let seconds := ofDay / 1000000000
  let fraction := ofDay % 1000000000
  let tail :=
    if fraction = 0 then ""
    else if fraction % 1000 = 0 then "." ++ padded 6 (fraction / 1000)
    else "." ++ padded 9 fraction
  padded 4 date.year.toNat ++ "-" ++ padded 2 date.month ++ "-" ++ padded 2 date.day ++ separator ++
    padded 2 (seconds / 3600) ++ ":" ++ padded 2 (seconds / 60 % 60) ++ ":" ++
    padded 2 (seconds % 60) ++ tail

/-- The text of an instant in universal time. -/
def text : Instant → String
  | missing => "NaT"
  | known ns => render "T" ns

/-- The sign, hours and minutes of an offset from universal time, in nanoseconds. -/
def offsetText (offset : Int) : String :=
  let minutes := (offset / (60 * perSecond)).natAbs
  (if offset < 0 then "-" else "+") ++ padded 2 (minutes / 60) ++ ":" ++ padded 2 (minutes % 60)

/-! ## Reading -/

/-- A digit's value; only the ten ASCII digits write a date. -/
def digit? (c : Char) : Option Nat :=
  if '0' ≤ c ∧ c ≤ '9' then some (c.toNat - 48) else none

/-- The number written by exactly `count` digits, and the rest. -/
def number? (count : Nat) (cs : List Char) : Option (Nat × List Char) :=
  let ds := cs.take count
  if ds.length = count then
    (ds.mapM digit?).map fun vs => (vs.foldl (fun n d => 10 * n + d) 0, cs.drop count)
  else none

/-- A date in one of the forms `YYYY`, `YYYY-MM`, `YYYYMMDD` and `YYYY-MM-DD`. -/
def date? (cs : List Char) : Option (Calendar.Date × List Char) := do
  let (year, rest) ← number? 4 cs
  let build (month day : Nat) (rest : List Char) : Option (Calendar.Date × List Char) :=
    some ({ year := Int.ofNat year, month, day }, rest)
  match number? 4 rest with
  | some (_, after) =>
    let (month, _) ← number? 2 rest
    let (day, _) ← number? 2 (rest.drop 2)
    build month day after
  | none =>
    match rest with
    | '-' :: rest =>
      let (month, rest) ← number? 2 rest
      match rest with
      | '-' :: rest => do
        let (day, rest) ← number? 2 rest
        build month day rest
      | _ => build month 1 rest
    | _ => build 1 1 rest

/-- The nanoseconds of a fraction of a second; digits beyond the ninth are dropped. -/
def fraction? (cs : List Char) : Option (Nat × List Char) :=
  let (ds, rest) := cs.span fun c => (digit? c).isSome
  if ds.isEmpty then none
  else
    let nine := (ds ++ List.replicate 9 '0').take 9
    (number? 9 nine).map fun (n, _) => (n, rest)

/-- Optional seconds with an optional fraction, after the minutes: seconds and nanoseconds. -/
def secondOfMinute? (cs : List Char) : Option (Nat × Nat × List Char) :=
  match cs with
  | ':' :: rest => do
    let (second, rest) ← number? 2 rest
    match rest with
    | '.' :: rest =>
      let (nanos, rest) ← fraction? rest
      some (second, nanos, rest)
    | _ => some (second, 0, rest)
  | _ => some (0, 0, cs)

/-- A time of day `HH:MM[:SS[.fraction]]` in nanoseconds; the hour may have one digit. -/
def timeOfDay? (cs : List Char) : Option (Int × List Char) := do
  let (hour, rest) ← match number? 2 cs with
    | some found => some found
    | none => number? 1 cs
  let ':' :: rest := rest | none
  let (minute, rest) ← number? 2 rest
  let (second, nanos, rest) ← secondOfMinute? rest
  if hour < 24 ∧ minute < 60 ∧ second < 60 then
    some (Int.ofNat ((hour * 60 + minute) * 60 + second) * perSecond + Int.ofNat nanos, rest)
  else none

/-- An offset from universal time: `Z`, or a signed `HH:MM`. -/
def offset? (cs : List Char) : Option Int :=
  match cs with
  | ['Z'] => some 0
  | sign :: rest => do
    if sign ≠ '+' ∧ sign ≠ '-' then none
    let (hours, rest) ← number? 2 rest
    let ':' :: rest := rest | none
    let (minutes, rest) ← number? 2 rest
    if ¬ rest.isEmpty ∨ 24 ≤ hours ∨ 60 ≤ minutes then none
    let ns := Int.ofNat (hours * 60 + minutes) * (60 * perSecond)
    some (if sign = '-' then -ns else ns)
  | [] => none

/-- A date with an optional time of day and an optional offset: the nanoseconds on the local
clock, and the offset if one is written. -/
def local? (s : String) : Option (Int × Option Int) := do
  let (date, rest) ← date? s.toList
  if ¬ date.isValid ∨ date.year < 1 then none
  let start := date.toDays * perDay
  let (time, rest) ← match rest with
    | c :: more => if c = 'T' ∨ c = ' ' then timeOfDay? more else some (0, rest)
    | [] => some (0, [])
  match rest with
  | [] => some (start + time, none)
  | _ => (offset? rest).map fun o => (start + time, some o)

/-- The words that stand for a missing instant. -/
def missingWords : List String := ["", "NaT", "nat", "NAT", "nan", "NaN", "NAN"]

/-- The instant written by a text, and the offset it is written with. -/
def readZoned (s : String) : Except TimeFault (Instant × Option Int) :=
  if missingWords.contains s then .ok (.missing, none)
  else
    match local? s with
    | some (clock, offset) =>
      (ofNanoseconds (clock - offset.getD 0)).map fun t => (t, offset)
    | none =>
      if s.toList.length = 1 ∧ ¬ s.toList.any Char.isDigit then .error (.tooShort s)
      else .error (.unreadable s)

/-- The instant written by a text, in universal time. -/
def read (s : String) : Except TimeFault Instant := (readZoned s).map (·.1)

end Instant

end StrategyLab
