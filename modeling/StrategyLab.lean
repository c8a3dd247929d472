import StrategyLab.Ledger.Command
import StrategyLab.Main
import StrategyLab.Price.Written
import StrategyLab.Proofs.Ledger.Balance
import StrategyLab.Proofs.Number.Exact
import StrategyLab.Proofs.Block.Action
import StrategyLab.Proofs.Block.Atomicity
import StrategyLab.Proofs.Block.Conservation
import StrategyLab.Proofs.Block.Audit
import StrategyLab.Proofs.Block.Sequence
import StrategyLab.Proofs.Ledger.Soundness
import StrategyLab.Proofs.Simulation.Audit
import StrategyLab.Proofs.Price.Oracle
import StrategyLab.Proofs.Block.Record
import StrategyLab.Proofs.Simulation.Grid
import StrategyLab.Proofs.Simulation.Prefix
import StrategyLab.Proofs.Price.Positive
import StrategyLab.Proofs.Simulation.Coverage
import StrategyLab.Proofs.Schedule.Act
import StrategyLab.Proofs.Schedule.Interleaving
import StrategyLab.Proofs.Schedule.Batch
import StrategyLab.Proofs.Json.Written
import StrategyLab.Proofs.Schedule.Fingerprint
import StrategyLab.Proofs.Json.Canonical
import StrategyLab.Proofs.Time.Calendar
import StrategyLab.Proofs.Time.Text
import StrategyLab.Proofs.Agree
import StrategyLab.Proofs.Value.Alike
import StrategyLab.Proofs.Block.Override
import StrategyLab.Proofs.Ledger.Alike
import StrategyLab.Proofs.Block.Alike
import StrategyLab.Proofs.Simulation.Alike
import StrategyLab.Proofs.Simulation.Written
import StrategyLab.Proofs.Schedule.Worker
import StrategyLab.Proofs.Schedule.Transparent
import StrategyLab.Proofs.Number.Extended
import StrategyLab.Proofs.Optimization.Dominance
import StrategyLab.Proofs.Optimization.Frontier
import StrategyLab.Proofs.Search.Range
import StrategyLab.Proofs.Optimization.Budget
import StrategyLab.Proofs.Schedule.Isolation
import StrategyLab.Proofs.Value.Reordered
import StrategyLab.Proofs.Schedule.Sharing
import StrategyLab.Proofs.Ledger.Scaled
import StrategyLab.Proofs.Block.Scaled
import StrategyLab.Proofs.Metrics
import StrategyLab.Proofs.Simulation.Scaled
import StrategyLab.Proofs.Schedule.Settled
import StrategyLab.Proofs.Optimization.Mirror
import StrategyLab.Proofs.Optimization.Conduct
import StrategyLab.Proofs.Optimization.Chronicle
import StrategyLab.Proofs.Optimization.Stopped
import StrategyLab.Proofs.Simulation.Lossless
import StrategyLab.Proofs.Text.Lines
import StrategyLab.Proofs.Json.Reading
import StrategyLab.Proofs.Json.Torn
import StrategyLab.Proofs.Store.Record
import StrategyLab.Proofs.Store.Log
import StrategyLab.Proofs.Store.Crash
import StrategyLab.Proofs.Store.Deposit
import StrategyLab.Proofs.Optimization.Invariant
import StrategyLab.Proofs.Optimization.Stored
import StrategyLab.Proofs.Optimization.Circle
import StrategyLab.Proofs.Ledger.Finite
import StrategyLab.Proofs.Block.Finite
import StrategyLab.Proofs.Block.Raised
import StrategyLab.Proofs.Block.Reported
import StrategyLab.Proofs.Optimization.Numbered
import StrategyLab.Proofs.Optimization.Reused
import StrategyLab.Proofs.Price.Window
import StrategyLab.Proofs.Block.Structural
import StrategyLab.Proofs.Block.Tokens
import StrategyLab.Proofs.Simulation.Priced
import StrategyLab.Proofs.Validation
import StrategyLab.Proofs.Block.Closing
import StrategyLab.Proofs.Block.ExitRule
import StrategyLab.Proofs.Block.Turn
import StrategyLab.Proofs.Price.Scan
import StrategyLab.Proofs.Price.Normal
import StrategyLab.Proofs.Price.Untimed
import StrategyLab.Proofs.WalkForward.Windows
import StrategyLab.Proofs.WalkForward.Fold
import StrategyLab.Proofs.Search.Selection
import StrategyLab.Proofs.Optimization.Elite
import StrategyLab.Proofs.Optimization.Best
import StrategyLab.Proofs.Number.Doubling
import StrategyLab.Proofs.Schedule.Backoff
import StrategyLab.Proofs.Schedule.Retried
import StrategyLab.Proofs.Metrics.Drawdown
import StrategyLab.Proofs.Metrics.RoundTrip
import StrategyLab.Proofs.Time.Cron
import StrategyLab.Proofs.WalkForward.Degradation
import StrategyLab.Proofs.Metrics.Defined
import StrategyLab.Proofs.Block.Positions
import StrategyLab.Proofs.Simulation.Interest
import StrategyLab.Proofs.Indicator
import StrategyLab.Proofs.Block.Timing
import StrategyLab.Proofs.Search.Defaults
import StrategyLab.Proofs.Search.Suggestion
import StrategyLab.Proofs.Optimization.Status
import StrategyLab.Proofs.Json.Grammar
import StrategyLab.Proofs.CommandLine.Printed
