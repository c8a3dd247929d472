/-
Instants and durations as they are given. An instant given as a dynamic value is a number of
milliseconds from 1970-01-01T00:00, or a text that writes it, and nothing is the missing instant.
Durations are whole nanoseconds, given in milliseconds or as parts of other durations.
-/
import StrategyLab.Fault

namespace StrategyLab.Instant

variable {α : Type} [Scalar α]

/-- The instant that a value gives. -/
def ofValue (v : Value α) : Except (Fault α) Instant :=
  match v with
  | .num x | .narrow x => do
    let ms ← Value.wholeOfNum x
    ofMilliseconds ms
  | .text s => read s
  | .null => pure .missing
  | .instant t _ => pure t
  | v => throw (.value (.instantFromKind v.kindName))

/-- The written form of an instant. -/
def toValue (t : Instant) : Value α := .text t.text

end StrategyLab.Instant

namespace StrategyLab.Duration

variable {α : Type} [Scalar α]

/-- A duration of whole nanoseconds in range. -/
def ofNanoseconds (ns : Int) : Except (Fault α) Int :=
  if Instant.inRange ns then pure ns else throw (.request .durationOutOfRange)

/-- The whole nanoseconds of a scalar, cut toward zero. -/
def ofScalar (ns : α) : Except (Fault α) Int :=
  match Scalar.wholePart? ns with
  | some n => ofNanoseconds n
  | none =>
    throw (.request (if Scalar.isUndefined ns then .durationUndefined else .durationOutOfRange))

/-- The whole nanoseconds of a number of milliseconds, cut toward zero. -/
def ofMilliseconds (ms : Num α) : Except (Fault α) Int :=
  match ms with
  | .whole n => ofNanoseconds (n * Instant.perMillisecond)
  | .real x => ofScalar (x * 1000000.0)

/-- The whole nanoseconds of a number of days, cut toward zero. -/
def ofDays (days : Num α) : Except (Fault α) Int :=
  match days with
  | .whole n => ofNanoseconds (n * Instant.perDay)
  | .real x => ofScalar (x * 24.0 * 3600.0 * 1000000000.0)

/-- A duration in days. -/
def inDays (ns : Int) : α := Scalar.ofInt ns / Scalar.ofInt Instant.perDay

end StrategyLab.Duration
