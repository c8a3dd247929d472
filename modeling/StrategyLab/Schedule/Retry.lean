/-
Trying again: an attempt that fails is repeated a bounded number of times, after delays that
double from one to the next up to a longest one.
-/
import StrategyLab.Value.Reading

namespace StrategyLab

/-- How often an attempt is repeated, and after which delays. -/
structure RetryPolicy (α : Type) where
  /-- How often a failed attempt is repeated. -/
  retries : Int
  /-- The delay before the first repetition. -/
  initialDelay : Num α
  /-- The longest delay. -/
  maxDelay : Num α
  deriving Repr, Inhabited

/-- Why repeated attempts gave no result. -/
inductive RetryFailure (ε : Type) where
  /-- An attempt failed in a way that is not worth repeating. -/
  | refused (cause : ε)
  /-- All of so many attempts failed, the last one with this cause. -/
  | exhausted (attempts : Nat) (cause : ε)
  deriving Repr, Inhabited

namespace RetryFailure

/-- The cause of the last failure. -/
def cause {ε : Type} : RetryFailure ε → ε
  | refused e | exhausted _ e => e

/-- The text about exhausted attempts. -/
def exhaustedText (attempts : Nat) (cause : String) : String :=
  s!"Failed after {attempts} attempts: {cause}"

end RetryFailure

namespace Retry

/-! ## Delays -/

section Delay

variable {α : Type} [Scalar α]

/-- A half, multiplied by itself so many times. -/
def halved : Nat → α
  | 0 => 1.0
  | n + 1 => halved n / 2.0

/-- Powers of a half beyond this one are smaller than every positive scalar. -/
def halvingLimit : Nat := 1100

/-- A power of two. -/
def powerOfTwo (e : Int) : Num α :=
  if 0 ≤ e then .whole (Int.pow 2 e.toNat)
  else if e.natAbs ≤ halvingLimit then .real (halved e.natAbs)
  else .real 0.0

/-- The product of two numbers, whole if both are. -/
def product (x y : Num α) : Except (ValueFault α) (Num α) :=
  match x, y with
  | .whole m, .whole n => .ok (.whole (m * n))
  | x, y => do
    let a ← Value.realOfNum x
    let b ← Value.realOfNum y
    pure (.real (a * b))

/-- The delay before a repetition, counted from one: the initial delay, doubled each time, up to
the longest delay. -/
def delay (p : RetryPolicy α) (attempt : Int) : Except (ValueFault α) (Num α) := do
  let wanted ← product p.initialDelay (powerOfTwo (attempt - 1))
  pure (if p.maxDelay.isLess wanted then p.maxDelay else wanted)

end Delay

/-! ## Attempts -/

variable {μ : Type → Type} [Monad μ] {ε β δ : Type}

/-- Goes on after `made` attempts: at most `left` repetitions of the next one follow it. -/
def attemptFrom (attempt : μ (Except ε β)) (isRetryable : ε → Bool) (delay : Nat → Except ε δ)
    (sleep : δ → μ Unit) : (made left : Nat) → μ (Except (RetryFailure ε) β)
  | made, left => do
    match ← attempt with
    | .ok x => pure (.ok x)
    | .error e =>
      if !isRetryable e then pure (.error (.refused e))
      else
        match left with
        | 0 => pure (.error (.exhausted (made + 1) e))
        | n + 1 =>
          match delay (made + 1) with
          | .error e => pure (.error (.refused e))
          | .ok d => do
            sleep d
            attemptFrom attempt isRetryable delay sleep (made + 1) n

/-- Makes an attempt and repeats it while it fails in a way that is worth repeating. -/
def run (attempt : μ (Except ε β)) (isRetryable : ε → Bool) (delay : Nat → Except ε δ)
    (sleep : δ → μ Unit) (retries : Int) : μ (Except (RetryFailure ε) β) :=
  attemptFrom attempt isRetryable delay sleep 0 retries.toNat

end Retry

end StrategyLab
