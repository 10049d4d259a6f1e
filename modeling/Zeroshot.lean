import Zeroshot.Lib.OrdMap
import Zeroshot.Lib.Logged
import Zeroshot.Lib.Journal
import Zeroshot.Lib.Ranking
import Zeroshot.Protocol.Identifier
import Zeroshot.Protocol.Payload
import Zeroshot.Protocol.Graph
import Zeroshot.Protocol.Outcome
import Zeroshot.Reducer.History
import Zeroshot.Reducer.Values
import Zeroshot.Reducer.Engine
import Zeroshot.Reducer.Evaluation
import Zeroshot.Reducer.Inversion
import Zeroshot.Reducer.Positions
import Zeroshot.Reducer.Configuration
import Zeroshot.Reducer.Effects
import Zeroshot.Reducer.Reduction
import Zeroshot.Reducer.Frame
import Zeroshot.Reducer.Causality
import Zeroshot.Reducer.Sources
import Zeroshot.Reducer.Facts
import Zeroshot.Reducer.Visits
import Zeroshot.Reducer.Freshness
import Zeroshot.Reducer.Stability
import Zeroshot.Lib.Reporting
import Zeroshot.Verifier.Diagnostic
import Zeroshot.Verifier.Payload
import Zeroshot.Verifier.Control
import Zeroshot.Verifier.Assignments
import Zeroshot.Verifier.Flow
import Zeroshot.Verifier.Index
import Zeroshot.Verifier.Guards
import Zeroshot.Verifier.Bindings
import Zeroshot.Verifier.Choices
import Zeroshot.Verifier.Nodes
import Zeroshot.Verifier.Bounds
import Zeroshot.Verifier.Verify
import Zeroshot.Run.History
import Zeroshot.Verifier.Accepted
import Zeroshot.Run.Invariants
import Zeroshot.Run.Attribution
import Zeroshot.Run.Terminal
import Zeroshot.Ledger.Event
import Zeroshot.Ledger.State
import Zeroshot.Ledger.Transitions
import Zeroshot.Ledger.Port
import Zeroshot.Ledger.Fake
import Zeroshot.Ledger.Sqlite
import Zeroshot.Ledger.Sourcing
import Zeroshot.Ledger.Exact
import Zeroshot.Lib.Paging
import Zeroshot.Ledger.Rows
import Zeroshot.Ledger.Refinement
import Zeroshot.Ledger.Pages
import Zeroshot.Ledger.Equivalence
import Zeroshot.Ledger.Lifecycle
import Zeroshot.Ledger.Replay
import Zeroshot.Reducer.Repositioning
import Zeroshot.Reducer.Reordering
import Zeroshot.Run.Order
import Zeroshot.Supervisor.History
import Zeroshot.Supervisor.Resume
import Zeroshot.Delivery.Receipts
import Zeroshot.Supervisor.Certification
import Zeroshot.Lib.Machine
import Zeroshot.Lease.Workspace
import Zeroshot.Delivery.Comment
import Zeroshot.Reducer.Paths
import Zeroshot.Reducer.Cutoffs
import Zeroshot.Run.Cutoffs
import Zeroshot.Lib.Path
import Zeroshot.Watch.Wire
import Zeroshot.Watch.Stream
import Zeroshot.Watch.Client
import Zeroshot.Lib.Selection
import Zeroshot.Observability.Projection
import Zeroshot.Observability.Lossless
import Zeroshot.Observability.Subscriptions
import Zeroshot.Runner.Sessions
import Zeroshot.Runner.Custody
import Zeroshot.Runner.Closing
import Zeroshot.Lib.SortedMap
import Zeroshot.Protocol.Subtyping
import Zeroshot.Protocol.Validation
import Zeroshot.Protocol.Materialization
import Zeroshot.Ledger.Usage
import Zeroshot.Run.Guards
import Zeroshot.Run.Collection
import Zeroshot.Run.Promotion
import Zeroshot.Lib.Entries
import Zeroshot.Reducer.Requests
import Zeroshot.Reducer.Dispatches
import Zeroshot.Reducer.Allocation
import Zeroshot.Run.Dispatches
import Zeroshot.Verifier.Frames
import Zeroshot.Verifier.Totals
import Zeroshot.Protocol.Encoding
import Zeroshot.Protocol.Canonical
import Zeroshot.Verifier.Finalize
import Zeroshot.Lib.Observed
import Zeroshot.Reducer.Trace
import Zeroshot.Capsule.JsonLines
import Zeroshot.Lib.Successor
import Zeroshot.Verifier.Multisets
import Zeroshot.Admission.Snapshot
import Zeroshot.Admission.Lifecycle
import Zeroshot.Protocol.JsonSchema
import Zeroshot.Runner.Schema
import Zeroshot.Runner.Output
import Zeroshot.Watch.Multiplex
import Zeroshot.Delivery.Redaction
import Zeroshot.Delivery.Feedback
import Zeroshot.Lib.Stamped
import Zeroshot.Observability.Control
import Zeroshot.Lib.Topological
import Zeroshot.Verifier.References
import Zeroshot.Github.Policy
import Zeroshot.Github.MergePolicy
import Zeroshot.Github.Permission
import Zeroshot.Github.Methods
