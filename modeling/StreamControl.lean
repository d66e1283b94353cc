import StreamControl.CommandLine.Arguments
import StreamControl.CommandLine.Help
import StreamControl.CommandLine.Run
import StreamControl.Completion.Tracker
import StreamControl.Completion.Watcher
import StreamControl.Decimal.Notation
import StreamControl.Decimal.Reader
import StreamControl.Decimal.Shortest
import StreamControl.Disk.Basic
import StreamControl.Disk.Edit
import StreamControl.Disk.Path
import StreamControl.Error
import StreamControl.Form.Request
import StreamControl.Form.Settings
import StreamControl.Form.Stream
import StreamControl.Gateway.Basic
import StreamControl.Hosts
import StreamControl.Json.Basic
import StreamControl.Json.Decode
import StreamControl.Json.Numeral
import StreamControl.Json.Reader
import StreamControl.Json.Writer
import StreamControl.Ledger.Entry
import StreamControl.Ledger.Failures
import StreamControl.Main
import StreamControl.Metrics
import StreamControl.Notifier.Hub
import StreamControl.Notifier.Waiters
import StreamControl.Operation.Kind
import StreamControl.Operation.Outcome
import StreamControl.Operation.Refusal
import StreamControl.Operation.Request
import StreamControl.Pipeline.Basic
import StreamControl.Pipeline.Execution
import StreamControl.Pipeline.Handlers
import StreamControl.Pipeline.Processor
import StreamControl.Policy.Governor
import StreamControl.Policy.Retry
import StreamControl.Policy.Settings
import StreamControl.Program
import StreamControl.Proofs.Admission.AllOrNothing
import StreamControl.Proofs.Admission.Alone
import StreamControl.Proofs.Admission.Calls
import StreamControl.Proofs.Admission.Chronicle
import StreamControl.Proofs.Admission.Course
import StreamControl.Proofs.Admission.Creation
import StreamControl.Proofs.Admission.Endings
import StreamControl.Proofs.Admission.Exclusion
import StreamControl.Proofs.Admission.Gateway
import StreamControl.Proofs.Admission.Handler
import StreamControl.Proofs.Admission.History
import StreamControl.Proofs.Admission.Invariant
import StreamControl.Proofs.Admission.Life
import StreamControl.Proofs.Admission.Origin
import StreamControl.Proofs.Admission.Override
import StreamControl.Proofs.Admission.Ownership
import StreamControl.Proofs.Admission.Play
import StreamControl.Proofs.Admission.Reachable
import StreamControl.Proofs.Admission.Redelivery
import StreamControl.Proofs.Admission.Replay
import StreamControl.Proofs.Admission.Steady
import StreamControl.Proofs.Admission.Surroundings
import StreamControl.Proofs.Admission.System
import StreamControl.Proofs.Completion.Evidence
import StreamControl.Proofs.Completion.FirstSignal
import StreamControl.Proofs.Completion.Recognition
import StreamControl.Proofs.Completion.Slots
import StreamControl.Proofs.Completion.Success
import StreamControl.Proofs.Completion.WaitingRoom
import StreamControl.Proofs.Disk.Faults
import StreamControl.Proofs.Disk.Files
import StreamControl.Proofs.Disk.Making
import StreamControl.Proofs.Disk.Tree
import StreamControl.Proofs.Disk.Unshared
import StreamControl.Proofs.Durability
import StreamControl.Proofs.Form.Request
import StreamControl.Proofs.Form.Stream
import StreamControl.Proofs.Interference
import StreamControl.Proofs.Json.Behind
import StreamControl.Proofs.Json.Decode
import StreamControl.Proofs.Json.Fits
import StreamControl.Proofs.Json.Line
import StreamControl.Proofs.Json.Numeral
import StreamControl.Proofs.Json.Prefix
import StreamControl.Proofs.Json.RoundTrip
import StreamControl.Proofs.Json.Text
import StreamControl.Proofs.Ledger.Cut
import StreamControl.Proofs.Ledger.Failures
import StreamControl.Proofs.Ledger.Lines
import StreamControl.Proofs.Ledger.Recording
import StreamControl.Proofs.Notifier.Attendance
import StreamControl.Proofs.Notifier.Waiters
import StreamControl.Proofs.Pipeline.Acknowledgement
import StreamControl.Proofs.Pipeline.Backlog
import StreamControl.Proofs.Pipeline.Budget
import StreamControl.Proofs.Pipeline.Control
import StreamControl.Proofs.Pipeline.Endless
import StreamControl.Proofs.Pipeline.Exhaustion
import StreamControl.Proofs.Pipeline.Handling
import StreamControl.Proofs.Pipeline.Independence
import StreamControl.Proofs.Pipeline.Loop
import StreamControl.Proofs.Pipeline.OneWrite
import StreamControl.Proofs.Pipeline.Places
import StreamControl.Proofs.Pipeline.Progress
import StreamControl.Proofs.Pipeline.Restart
import StreamControl.Proofs.Pipeline.Rounds
import StreamControl.Proofs.Pipeline.Serial
import StreamControl.Proofs.Pipeline.Turns
import StreamControl.Proofs.Queue.AckWindow
import StreamControl.Proofs.Queue.Actions
import StreamControl.Proofs.Queue.Backing
import StreamControl.Proofs.Queue.Crash
import StreamControl.Proofs.Queue.Cut
import StreamControl.Proofs.Queue.Delivery
import StreamControl.Proofs.Queue.Directory
import StreamControl.Proofs.Queue.Drain
import StreamControl.Proofs.Queue.FailedCompaction
import StreamControl.Proofs.Queue.Frame
import StreamControl.Proofs.Queue.Interruption
import StreamControl.Proofs.Queue.Layout
import StreamControl.Proofs.Queue.Memory
import StreamControl.Proofs.Queue.Outcomes
import StreamControl.Proofs.Queue.Overwritten
import StreamControl.Proofs.Queue.Recompaction
import StreamControl.Proofs.Queue.Refinement
import StreamControl.Proofs.Queue.Repair
import StreamControl.Proofs.Queue.Rest
import StreamControl.Proofs.Queue.Sessions
import StreamControl.Proofs.Queue.Steps
import StreamControl.Proofs.Queue.Stock
import StreamControl.Proofs.Queue.Subscription
import StreamControl.Proofs.Queue.Watermark
import StreamControl.Proofs.RequestId
import StreamControl.Proofs.Rounding
import StreamControl.Proofs.Shop
import StreamControl.Proofs.Store
import StreamControl.Proofs.Store.Versions
import StreamControl.Proofs.Stream.AutoScale
import StreamControl.Proofs.Stream.Bookkeeping
import StreamControl.Proofs.Stream.Bounds
import StreamControl.Proofs.Stream.Content
import StreamControl.Proofs.Stream.Coverage
import StreamControl.Proofs.Stream.Epochs
import StreamControl.Proofs.Text
import StreamControl.Proofs.Timestamp
import StreamControl.Queue.AckWindow
import StreamControl.Queue.File
import StreamControl.Queue.Frame
import StreamControl.Queue.Memory
import StreamControl.Queue.Subscription
import StreamControl.RequestId
import StreamControl.Simulation.Bench
import StreamControl.Simulation.Calls
import StreamControl.Simulation.Clock
import StreamControl.Simulation.Conduct
import StreamControl.Simulation.Fault
import StreamControl.Simulation.Naming
import StreamControl.Simulation.Script
import StreamControl.Simulation.Service
import StreamControl.Simulation.Session
import StreamControl.Simulation.Step
import StreamControl.Simulation.Turn
import StreamControl.Simulation.World
import StreamControl.Store.Basic
import StreamControl.Stream.Configuration
import StreamControl.Stream.Id
import StreamControl.Stream.KeyRange
import StreamControl.Stream.Phase
import StreamControl.Stream.Plan
import StreamControl.Stream.Record
import StreamControl.Text.Blank
import StreamControl.Text.Hidden
import StreamControl.Text.Millis
import StreamControl.Text.Pieces
import StreamControl.Text.Quoted
import StreamControl.Text.Utf8
import StreamControl.Timestamp
