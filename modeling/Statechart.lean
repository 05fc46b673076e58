import Statechart.Configuration
import Statechart.Defect
import Statechart.Definition.Basic
import Statechart.Definition.Builder
import Statechart.Definition.Reader
import Statechart.Definition.Writer
import Statechart.Dict
import Statechart.Envelope
import Statechart.Event
import Statechart.History
import Statechart.Host
import Statechart.Interpreter.Basic
import Statechart.Interpreter.Effects
import Statechart.Interpreter.Fault
import Statechart.Interpreter.Run
import Statechart.InvokeHandle
import Statechart.Journal.Basic
import Statechart.Journal.Trace
import Statechart.Json.Basic
import Statechart.Json.Fields
import Statechart.Json.Reader
import Statechart.Json.Token
import Statechart.Json.Writer
import Statechart.Keyed
import Statechart.Machine
import Statechart.Number.Basic
import Statechart.Number.Double
import Statechart.Number.Power
import Statechart.Number.Shortest
import Statechart.OneOrMany
import Statechart.Proofs.Definition.Delays
import Statechart.Proofs.Definition.Drafts
import Statechart.Proofs.Definition.Lists
import Statechart.Proofs.Definition.Reorderings
import Statechart.Proofs.Definition.RoundTrip
import Statechart.Proofs.History.Limits
import Statechart.Proofs.History.Texts
import Statechart.Proofs.Interpreter.Accounts
import Statechart.Proofs.Interpreter.Attempts
import Statechart.Proofs.Interpreter.Brackets
import Statechart.Proofs.Interpreter.Calls
import Statechart.Proofs.Interpreter.Coherence
import Statechart.Proofs.Interpreter.Control
import Statechart.Proofs.Interpreter.Deliveries
import Statechart.Proofs.Interpreter.Destinations
import Statechart.Proofs.Interpreter.Entries
import Statechart.Proofs.Interpreter.Faces
import Statechart.Proofs.Interpreter.Finality
import Statechart.Proofs.Interpreter.Footprint
import Statechart.Proofs.Interpreter.Forecast
import Statechart.Proofs.Interpreter.Frame
import Statechart.Proofs.Interpreter.Histories
import Statechart.Proofs.Interpreter.Holdings
import Statechart.Proofs.Interpreter.Invocations
import Statechart.Proofs.Interpreter.Lifecycle
import Statechart.Proofs.Interpreter.Liveness
import Statechart.Proofs.Interpreter.Lookups
import Statechart.Proofs.Interpreter.Marks
import Statechart.Proofs.Interpreter.Moves
import Statechart.Proofs.Interpreter.Nesting
import Statechart.Proofs.Interpreter.Observers
import Statechart.Proofs.Interpreter.Outcomes
import Statechart.Proofs.Interpreter.Passages
import Statechart.Proofs.Interpreter.Queue
import Statechart.Proofs.Interpreter.Rounds
import Statechart.Proofs.Interpreter.Snapshots
import Statechart.Proofs.Interpreter.Staleness
import Statechart.Proofs.Interpreter.Tables
import Statechart.Proofs.Interpreter.Timers
import Statechart.Proofs.Interpreter.Timings
import Statechart.Proofs.Interpreter.Visits
import Statechart.Proofs.Interpreter.Writing
import Statechart.Proofs.Json.Documents
import Statechart.Proofs.Json.Numerals
import Statechart.Proofs.Json.Payloads
import Statechart.Proofs.Json.Records
import Statechart.Proofs.Json.Scanning
import Statechart.Proofs.Machine.Bindings
import Statechart.Proofs.Session.Requests
import Statechart.Proofs.Step.Lookups
import Statechart.Proofs.Step.Plans
import Statechart.Proofs.Step.Selection
import Statechart.Proofs.Step.Splice
import Statechart.Proofs.Time.Calendar
import Statechart.Proofs.Time.Instants
import Statechart.Proofs.Tree.Acceptance
import Statechart.Proofs.Tree.Ancestry
import Statechart.Proofs.Tree.Arena
import Statechart.Proofs.Tree.Image
import Statechart.Proofs.Tree.Keys
import Statechart.Proofs.Tree.Meet
import Statechart.Proofs.Tree.Places
import Statechart.Proofs.Tree.Preorder
import Statechart.Proofs.Tree.Qualified
import Statechart.Proofs.Tree.Reports
import Statechart.Proofs.Tree.Semilattice
import Statechart.Proofs.Tree.Texts
import Statechart.Proofs.Tree.Walks
import Statechart.Proofs.Tree.WellFormed
import Statechart.Scenario.Command
import Statechart.Scenario.HandleTrial
import Statechart.Scenario.Lines
import Statechart.Scenario.Script
import Statechart.Session.Agenda
import Statechart.Session.Basic
import Statechart.Snapshot
import Statechart.Step
import Statechart.Text.Blank
import Statechart.Text.Dotted
import Statechart.Text.Quoted
import Statechart.Text.Visible
import Statechart.Time.Calendar
import Statechart.Time.Duration
import Statechart.Time.Instant
import Statechart.Tree.Basic
import Statechart.Tree.Build
import Statechart.Tree.Defects
import Statechart.Tree.Hierarchy
import Statechart.Tree.Layout
