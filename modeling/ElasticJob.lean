import ElasticJob.Collection.SortedMap
import ElasticJob.Config.Basic
import ElasticJob.Config.File
import ElasticJob.Config.Overlay
import ElasticJob.Descriptor
import ElasticJob.Edge
import ElasticJob.Error
import ElasticJob.Graph.Digraph
import ElasticJob.Graph.JobGraph
import ElasticJob.Graph.Snapshot
import ElasticJob.Graph.Verify
import ElasticJob.History.Event
import ElasticJob.History.Service
import ElasticJob.Json.Text
import ElasticJob.Json.Value
import ElasticJob.Manager.Basic
import ElasticJob.Manager.Event
import ElasticJob.Manager.Registry
import ElasticJob.Manager.RootInput
import ElasticJob.Manager.Shuffle
import ElasticJob.Manager.ShuffleSettings
import ElasticJob.Number.Integer
import ElasticJob.Number.Rounding
import ElasticJob.Number.Single
import ElasticJob.Plan
import ElasticJob.Plan.Json
import ElasticJob.Proofs.Config.Composition
import ElasticJob.Proofs.Graph.Acyclicity
import ElasticJob.Proofs.Graph.Adjacency
import ElasticJob.Proofs.Graph.Assembly
import ElasticJob.Proofs.Graph.Atomicity
import ElasticJob.Proofs.Graph.Groups
import ElasticJob.Proofs.Graph.Incidence
import ElasticJob.Proofs.Graph.MemberEdges
import ElasticJob.Proofs.Graph.Reachability
import ElasticJob.Proofs.Graph.Snapshot
import ElasticJob.Proofs.Graph.TopologicalOrder
import ElasticJob.Proofs.Graph.Verification
import ElasticJob.Proofs.Graph.WellFormed
import ElasticJob.Proofs.History.Settlement
import ElasticJob.Proofs.Manager.Feeding
import ElasticJob.Proofs.Manager.Finality
import ElasticJob.Proofs.Manager.Monotone
import ElasticJob.Proofs.Manager.Order
import ElasticJob.Proofs.Manager.Overflow
import ElasticJob.Proofs.Manager.Partition
import ElasticJob.Proofs.Manager.RootInputOrder
import ElasticJob.Proofs.Manager.SplitNumbering
import ElasticJob.Proofs.Manager.SplitRouting
import ElasticJob.Proofs.Manager.TaskCount
import ElasticJob.Proofs.Manager.Upstream
import ElasticJob.Proofs.Manager.Waiting
import ElasticJob.Proofs.Plan.Agreement
import ElasticJob.Proofs.Plan.Commutation
import ElasticJob.Proofs.Plan.Creation
import ElasticJob.Proofs.Plan.Exactness
import ElasticJob.Proofs.Plan.HintCover
import ElasticJob.Proofs.Plan.Naming
import ElasticJob.Proofs.Plan.RoundTrip
import ElasticJob.Proofs.Plan.Sequence
import ElasticJob.Proofs.Properties.Acceptance
import ElasticJob.Proofs.Properties.Truncation
import ElasticJob.Proofs.Properties.TypedValues
import ElasticJob.Proofs.Scheduler.Abort
import ElasticJob.Proofs.Scheduler.Chronicle
import ElasticJob.Proofs.Scheduler.EventLog
import ElasticJob.Proofs.Scheduler.Finalization
import ElasticJob.Proofs.Scheduler.Outcome
import ElasticJob.Proofs.Scheduler.Refusal
import ElasticJob.Proofs.Scheduler.SourceKnowledge
import ElasticJob.Proofs.Scheduler.Steps
import ElasticJob.Proofs.Scheduler.Submission
import ElasticJob.Proofs.Scheduler.Wakeup
import ElasticJob.Proofs.Settings.EdgeAgreement
import ElasticJob.Proofs.Settings.EdgeHalves
import ElasticJob.Proofs.Settings.Modernization
import ElasticJob.Properties.Basic
import ElasticJob.Properties.Payload
import ElasticJob.Reconfiguration
import ElasticJob.Scheduler.Basic
import ElasticJob.Scheduler.Step
import ElasticJob.Scheduler.Submit
import ElasticJob.Settings.Edge
import ElasticJob.Settings.Key
import ElasticJob.Settings.Output
import ElasticJob.Simulation.Clock
import ElasticJob.Simulation.HistoryClock
import ElasticJob.Simulation.Script
import ElasticJob.Text.Blank
import ElasticJob.Text.Quoted
import ElasticJob.Text.Utf8
import ElasticJob.Vertex
import ElasticJob.Yaml.Cursor
import ElasticJob.Yaml.Event
import ElasticJob.Yaml.Node
import ElasticJob.Yaml.Scalar
import ElasticJob.Yaml.Tag
import ElasticJob.Yaml.Token
import ElasticJob.Yaml.Value
