/-
Schedules of five fields: minute, hour, day of the month, month and weekday. A field is a list of
parts separated by commas; a part is `*`, a number or a range `a-b`, each with an optional step
`/s`. Parts are read only as far as they are needed to decide.
-/
import StrategyLab.Number.Numeral
import StrategyLab.Text.Quoted
import StrategyLab.Time.Instant

namespace StrategyLab

/-- Why a schedule cannot be decided. -/
inductive CronFault where
  /-- The schedule has not five fields. -/
  | fieldCount (schedule : String)
  /-- A part has something other than a whole number. -/
  | notWhole (text : String)
  /-- A step of zero on a value in range. -/
  | zeroStep
  deriving Repr, DecidableEq, Inhabited

namespace Cron

/-- A whole number of a part. -/
def whole (cs : List Char) : Except CronFault Int :=
  match Numeral.whole? (String.ofList cs) with
  | some n => .ok n
  | none => .error (.notWhole (String.ofList cs))

/-- A part as read: the first and last value and the step. -/
structure Part where
  first : Int
  last : Int
  step : Int
  deriving Repr, DecidableEq

/-- Reads a part of a field that spans the values from `low` to `high`; the step comes first. -/
def readPart (low high : Int) (cs : List Char) : Except CronFault Part := do
  let (body, step) ← match Text.cutAt? '/' cs with
    | some (body, step) => do pure (body, ← whole step)
    | none => pure (cs, 1)
  if body = ['*'] then pure ⟨low, high, step⟩
  else match Text.cutAt? '-' body with
    | some (first, last) => do
      let a ← whole first
      let b ← whole last
      pure ⟨a, b, step⟩
    | none => do
      let a ← whole body
      pure ⟨a, a, step⟩

/-- The value is among those of the part. There is no value for a missing instant. -/
def Part.holds (p : Part) : Option Int → Except CronFault Bool
  | none => .ok false
  | some v =>
    if p.first ≤ v ∧ v ≤ p.last then
      if p.step = 0 then .error .zeroStep else .ok ((v - p.first) % p.step = 0)
    else .ok false

/-- The value is among those of one of the parts, read from the first one on. -/
def anyPart (low high : Int) (value : Option Int) : List (List Char) → Except CronFault Bool
  | [] => .ok false
  | cs :: rest => do
    let part ← readPart low high cs
    if ← part.holds value then pure true else anyPart low high value rest

/-- The value is among those of the field. -/
def fieldHolds (field : String) (low high : Int) (value : Option Int) : Except CronFault Bool :=
  anyPart low high value (Text.splitOn ',' field.toList)

/-- What a schedule looks at in an instant. -/
structure Clock where
  minute : Int
  hour : Int
  day : Int
  month : Int
  /-- Counted from Sunday = 0. -/
  weekday : Int
  deriving Repr, DecidableEq

/-- The clock and calendar at an instant, none when it is missing. -/
def Clock.ofInstant : Instant → Option Clock
  | .missing => none
  | .known ns =>
    let days := Instant.dayNumber ns
    let minutes := (ns - days * Instant.perDay) / (60 * Instant.perSecond)
    let date := Calendar.Date.ofDays days
    some { minute := minutes % 60, hour := minutes / 60, day := date.day, month := date.month,
           weekday := Calendar.weekday days }

/-- The weekday field, in which Sunday is both 0 and 7. -/
def weekdayHolds (field : String) (weekday : Option Int) : Except CronFault Bool := do
  if ← fieldHolds field 0 7 weekday then pure true
  else if weekday = some 0 then fieldHolds field 0 7 (some 7)
  else pure false

/-- The schedule holds at an instant. The fields are decided in order, up to the first one that
does not hold. -/
def holds (schedule : String) (t : Instant) : Except CronFault Bool := do
  let [minute, hour, day, month, weekday] := Text.words schedule
    | .error (.fieldCount schedule)
  let clock := Clock.ofInstant t
  if ← fieldHolds minute 0 59 (clock.map (·.minute)) then
    if ← fieldHolds hour 0 23 (clock.map (·.hour)) then
      if ← fieldHolds day 1 31 (clock.map (·.day)) then
        if ← fieldHolds month 1 12 (clock.map (·.month)) then
          return ← weekdayHolds weekday (clock.map (·.weekday))
  pure false

end Cron

/-- The explanation of a schedule that cannot be decided. -/
def CronFault.message : CronFault → String
  | fieldCount schedule => "Cron schedule must have five fields: " ++ Text.quote schedule
  | notWhole text => "invalid literal for int() with base 10: " ++ Text.quote text
  | zeroStep => "integer modulo by zero"

end StrategyLab
