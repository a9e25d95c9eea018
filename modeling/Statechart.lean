import Statechart.Chart.Layout
import Statechart.Checkpoint.Binary
import Statechart.Definition.Fluent
import Statechart.Definition.Same
import Statechart.Interpreter.Resume
import Statechart.Interpreter.Run
import Statechart.Machine.Build
import Statechart.Registry
import Statechart.Script.Decode
import Statechart.Tally
import Statechart.Proofs.SortedMap
import Statechart.Proofs.Chart.Layout
import Statechart.Proofs.Machine.Link
import Statechart.Proofs.Machine.Build
import Statechart.Proofs.Chart.Forks
import Statechart.Proofs.Machine.Ids
import Statechart.Proofs.Machine.Origins
import Statechart.Proofs.Configuration.Entry
import Statechart.Proofs.Step.Domain
import Statechart.Proofs.Step.Selection
import Statechart.Proofs.Step.Memory
import Statechart.Proofs.Step.Microstep
import Statechart.Proofs.Step.Stability
import Statechart.Proofs.Configuration.Exclusive
import Statechart.Proofs.Configuration.Resolve
import Statechart.Proofs.Configuration.Completion
import Statechart.Proofs.Checkpoint.Validate
import Statechart.Proofs.Step.Exclusive
import Statechart.Proofs.Step.Completion
import Statechart.Proofs.Step.Run
import Statechart.Proofs.Step.Legality
import Statechart.Proofs.Step.Targets
import Statechart.Proofs.Step.Start
import Statechart.Proofs.Step.Exits
import Statechart.Proofs.Step.Extent
import Statechart.Proofs.Interpreter.Commit
import Statechart.Proofs.Interpreter.Overlay
import Statechart.Proofs.Interpreter.Past
import Statechart.Proofs.Interpreter.Rollback
import Statechart.Proofs.Interpreter.Tables
import Statechart.Proofs.Interpreter.Tasks
import Statechart.Proofs.Interpreter.Moves
import Statechart.Proofs.Interpreter.Shown
import Statechart.Proofs.Checkpoint.Restore
import Statechart.Proofs.Interpreter.Course
import Statechart.Proofs.Interpreter.DryRun
import Statechart.Proofs.Interpreter.Snapshots
import Statechart.Proofs.Interpreter.Registered
import Statechart.Proofs.Interpreter.Accounted
import Statechart.Proofs.Interpreter.Journeys
import Statechart.Proofs.Step.Parting
import Statechart.Proofs.Interpreter.Journal
import Statechart.Proofs.Interpreter.Turns
import Statechart.Proofs.Interpreter.Histories
import Statechart.Proofs.Interpreter.Order
import Statechart.Proofs.Interpreter.Ending
import Statechart.Proofs.Interpreter.Chain
import Statechart.Proofs.Interpreter.Listeners
import Statechart.Proofs.Json.Fields
import Statechart.Proofs.Definition.RoundTrip
import Statechart.Proofs.Timestamp
import Statechart.Proofs.Bytes
import Statechart.Proofs.Json.Tokens
import Statechart.Proofs.Json.Text
import Statechart.Proofs.Json.Coded
import Statechart.Proofs.Checkpoint.RoundTrip
import Statechart.Proofs.Step.Sources
import Statechart.Proofs.Json.Snapshot
import Statechart.Proofs.Interpreter.Deferral
import Statechart.Proofs.Step.Priority
import Statechart.Proofs.Step.Optimal
import Statechart.Proofs.Step.Recall
import Statechart.Proofs.Step.Steady
import Statechart.Proofs.Step.Locality
import Statechart.Proofs.Configuration.Resolution
import Statechart.Proofs.Step.Agreement
import Statechart.Proofs.Step.Serial
import Statechart.Proofs.Configuration.Nesting
import Statechart.Proofs.Step.Settling
import Statechart.Proofs.Step.Limits
import Statechart.Proofs.Step.Netting
import Statechart.Proofs.Step.Hierarchy
import Statechart.Proofs.Configuration.Value
import Statechart.Proofs.StateValue
import Statechart.Proofs.Machine.Paths
import Statechart.Proofs.Configuration.Matching
import Statechart.Proofs.Step.Internal
import Statechart.Proofs.Step.Done
import Statechart.Proofs.Machine.Places
import Statechart.Proofs.Machine.Problems
import Statechart.Proofs.Machine.Flaws
import Statechart.Proofs.Machine.Declared
import Statechart.Proofs.Machine.Addresses
import Statechart.Proofs.Step.Causes
import Statechart.Proofs.Step.Offers
import Statechart.Proofs.Machine.Preorder
