/-
Pools of threads on one host. All threads share the place for price data: starting a pool
installs its own data there, and a worker answers from whatever is installed.
-/
import StrategyLab.Schedule.Scheduler

namespace StrategyLab

/-- A host: the installed price data, and the pools that have been started. -/
structure Host (α : Type) where
  installed : Option (Oracle α)
  started : List Nat
  deriving Inhabited

namespace Host

variable {α : Type} [Scalar α]

/-- A host without workers. -/
def fresh : Host α := { installed := none, started := [] }

/-- Starts a pool if it has not been started, with its price data. -/
def ensure (p : Host α) (pool : Nat) (prices : Oracle α) : Host α :=
  if p.started.contains pool then p
  else { installed := some prices, started := pool :: p.started }

/-- The pool of one thread with a number and price data. A pool without usable price data does
not start. -/
def pool (number : Nat) (prices : Except (Fault α) (Oracle α)) : Pool (Host α) α :=
  fun request p =>
    match prices with
    | .error _ => (.failed (.pool .notStarted), p)
    | .ok oracle =>
      let ready := p.ensure number oracle
      (.answered (Worker.answer ready.installed request), ready)

end Host

end StrategyLab
