/-
Executing blocks. A rejected or refused block answers so and does not fire; any other fault ends
the execution. In a sequence a block that acts on a protocol or closes positions is skipped
unless the block before it fired.
-/
import StrategyLab.Block.Entry
import StrategyLab.Block.Exit
import StrategyLab.Block.Lending
import StrategyLab.Block.Risk
import StrategyLab.Block.Swap

namespace StrategyLab

namespace Block

variable {α : Type} [Scalar α]

/-- What a block of a kind does. -/
def act (kind : BlockKind) (b : Block α) (m : Market α) : Action α (Outcome α) :=
  match kind with
  | .priceTrigger => b.priceTrigger m
  | .timeTrigger => b.timeTrigger m
  | .volumeTrigger => b.volumeTrigger m
  | .indicatorTrigger => b.indicatorTrigger m
  | .swap exchange => b.swap exchange m
  | .supply lender => b.supply lender m
  | .borrow lender => b.borrow lender m
  | .repay => b.repay .aave m
  | .withdraw => b.withdraw .aave m
  | .liquidity => b.liquidity m
  | .flashLoan => b.flashLoan m
  | .staking => b.staking m
  | .stopLoss => b.stopLoss m
  | .takeProfit => b.takeProfit m
  | .timeExit => b.timeExit m
  | .conditionalExit => b.conditionalExit m
  | .positionSizing => b.positionSizing
  | .riskLimits => pure b.riskLimits
  | .rebalancing => do b.rebalancing m (← get)

/-- The outcome of a fault that is reported and not raised. -/
def reported? : Fault α → Option (Outcome α)
  | .rejected cause => some (.failed cause.message)
  | .ledger cause => if cause.isRefusal then some (.failed cause.message) else none
  | _ => none

/-- Executes a block: its outcome or a fault, and the account afterwards. -/
def execute (b : Block α) (m : Market α) (l : Ledger α) :
    Except (Fault α) (Outcome α) × Ledger α :=
  match b.kind? with
  | none => (.error (.structural (.unknownBlockKinds [b.kind])), l)
  | some kind =>
    match (b.act kind m).run l with
    | (.ok o, after) => (.ok o, after)
    | (.error f, after) =>
      match reported? f with
      | some o => (.ok o, after)
      | none => (.error f, after)

/-- The outcome of a skipped block. -/
def skipped (b : Block α) : Outcome α :=
  .idle ("Skipped " ++ b.displayName ++ ": previous condition not met") [("skipped", .truth true)]

/-- A block is skipped when it needs the one before it and that one did not fire. -/
def isSkipped (b : Block α) (previous : Option (Outcome α)) : Bool :=
  b.category.isConditional && previous.any fun o => !o.fired

end Block

/-- The execution of a sequence of blocks: the outcomes up to the fault that ended it, if one
did, and the account afterwards. -/
structure SequenceRun (α : Type) where
  outcomes : List (Outcome α)
  fault : Option (Fault α)
  ledger : Ledger α

namespace SequenceRun

variable {α : Type} [Scalar α]

/-- Executes the blocks after one with the given outcome. -/
def after (m : Market α) : (previous : Option (Outcome α)) → List (Block α) → Ledger α →
    SequenceRun α
  | _, [], l => { outcomes := [], fault := none, ledger := l }
  | previous, b :: rest, l =>
    if b.isSkipped previous then
      let run := after m (some b.skipped) rest l
      { run with outcomes := b.skipped :: run.outcomes }
    else
      match b.execute m l with
      | (.ok o, l') =>
        let run := after m (some o) rest l'
        { run with outcomes := o :: run.outcomes }
      | (.error f, l') => { outcomes := [], fault := some f, ledger := l' }

/-- Executes a sequence of blocks. -/
def execute (blocks : List (Block α)) (m : Market α) (l : Ledger α) : SequenceRun α :=
  after m none blocks l

/-- The results that are kept by block name after a run: the outcome of each block in its turn, in the place
of what was kept under its name before. -/
def results (blocks : List (Block α)) (run : SequenceRun α) (earlier : List (String × Outcome α)) :
    List (String × Outcome α) :=
  (blocks.zip run.outcomes).foldl (fun kept (b, o) => Ledger.putBalance b.id o kept) earlier

/-- The names under which a fired outcome is kept, in order. -/
def firedNames (blocks : List (Block α)) (run : SequenceRun α) : List String :=
  (((run.results blocks []).filter fun (_, o) => o.fired).map (·.1)).mergeSort (· ≤ ·)

end SequenceRun

end StrategyLab
