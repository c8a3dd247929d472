/-
Workers: a worker has price data installed, takes requests, and answers each with a result or an
error. A failed evaluation is an answer too.
-/
import StrategyLab.Search.Assignment
import StrategyLab.Simulation.Run

namespace StrategyLab

/-- The answer of a worker, with the name and the parameters of the request. -/
inductive Response (α : Type) where
  /-- A simulated run. -/
  | result (id parameters : Value α) (report : Report α)
  /-- The message and the kind of an error. -/
  | error (id parameters : Value α) (message errorKind : String)
  deriving Inhabited

namespace Worker

variable {α : Type} [Scalar α]

/-! ## Requests -/

/-- The type of requests for a simulation. -/
def backtestType : String := "BACKTEST"

/-- A request for a simulation in its written form. -/
def request (id : String) (blocks : List (Block α)) (parameters : Value α)
    (config : RunConfig α) : Object α :=
  .ofNames [("type", .text backtestType), ("id", .text id),
    ("blocks", .list (blocks.map Block.toValue)), ("parameters", parameters),
    ("config", config.toValue)]

/-! ## Answers -/

/-- The run that a request asks for. -/
def run (installed : Option (Oracle α)) (fields : Object α) (parameters : Value α) :
    Except (Fault α) (Report α) := do
  match installed with
  | none => throw (.data .workerNotReady)
  | some oracle =>
    let written ← Value.field fields "blocks"
    let given ← Block.listOfValue written
    let blocks ← Assignment.overrideBlocks parameters given
    let configValue ← Value.field fields "config"
    let config ← RunConfig.ofValue configValue
    Simulation.run blocks oracle config

/-- The answer of a worker with the installed price data to a request. -/
def answer (installed : Option (Oracle α)) (fields : Object α) : Response α :=
  let id := Value.ofOption (Object.get? fields "id")
  let parameters := ((Object.get? fields "parameters").filter Value.isPresent).getD (.object [])
  let requested := Value.ofOption (Object.get? fields "type")
  match requested with
  | .text type =>
    if type = backtestType then
      match run installed fields parameters with
      | .ok report => .result id parameters report
      | .error f => .error id parameters f.message f.kind.name
    else .error id parameters (RequestFault.unknownRequest type).message FaultKind.value.name
  | v => .error id parameters (RequestFault.unknownRequest v.shown).message FaultKind.value.name

end Worker

namespace Response

variable {α : Type} [Scalar α]

/-- The written form. -/
def toValue : Response α → Value α
  | result id parameters report =>
    .record [("type", .text "RESULT"), ("id", id), ("parameters", parameters),
      ("result", report.toValue)]
  | error id parameters message errorKind =>
    .record [("type", .text "ERROR"), ("id", id), ("parameters", parameters),
      ("error", .text message), ("error_type", .text errorKind)]

end Response

end StrategyLab
