import PhenoEvents.Library.Transition
import PhenoEvents.Library.KeyedTable
import PhenoEvents.Library.Checks
import PhenoEvents.Library.Versioned
import PhenoEvents.Json
import PhenoEvents.Schema.Registry
import PhenoEvents.Schema.Conformance
import PhenoEvents.Schema.Runs
import PhenoEvents.Schema.Evolution
import PhenoEvents.Bus.Outbox
import PhenoEvents.Bus.Lifecycle
import PhenoEvents.Bus.Refinement
import PhenoEvents.Bus.Delivery
import PhenoEvents.Projection.Orders
import PhenoEvents.Projection.Writes
import PhenoEvents.Library.Resume
import PhenoEvents.Projection.Checkpoint
import PhenoEvents.Projection.Runs
import PhenoEvents.Projection.CrashResume
import PhenoEvents.Projection.Offsets
import PhenoEvents.Projection.Totals
import PhenoEvents.Projection.History
import PhenoEvents.Projection.Redelivery
import PhenoEvents.Bus.Conservation
import PhenoEvents.Schema.Declared
import PhenoEvents.Schema.Immutability
import PhenoEvents.Projection.Convergence
import PhenoEvents.Projection.LivePath
import PhenoEvents.Bus.InMemory
import PhenoEvents.Bus.Registrations
import PhenoEvents.Bus.FanOut
import PhenoEvents.Bus.TotalOrder
import PhenoEvents.Bus.Answers
import PhenoEvents.Bus.Continuations
import PhenoEvents.Bus.Repeats
import PhenoEvents.Bus.FullQueue
import PhenoEvents.Bus.SingleWorker
import PhenoEvents.Bus.Interchange
import PhenoEvents.Bus.ReadBack
import PhenoEvents.Bus.ClaimNext
import PhenoEvents.Bus.FirstClaims
import PhenoEvents.Schema.Interpretable
import PhenoEvents.Schema.Nested
import PhenoEvents.Bus.Timestamps
import PhenoEvents.Projection.Stops
import PhenoEvents.Library.Confinement
import PhenoEvents.Projection.Money
import PhenoEvents.Projection.Separation
import PhenoEvents.Deployment.Processes
import PhenoEvents.Library.Replicas
import PhenoEvents.Deployment.Polling
import PhenoEvents.Deployment.Replicas
import PhenoEvents.Bus.Drain
import PhenoEvents.Bus.Attempts
import PhenoEvents.Library.Traces
import PhenoEvents.Bus.Provenance
import PhenoEvents.Bus.Isolation
import PhenoEvents.Schema.AnyOrder
import PhenoEvents.Schema.Violations
import PhenoEvents.Bus.Metrics
import PhenoEvents.Bus.Completion
import PhenoEvents.Bus.Backoff
import PhenoEvents.Bus.EventIsolation
import PhenoEvents.Bus.Overtaking
import PhenoEvents.Projection.Equivalence
import PhenoEvents.Bus.Budgets
