import LiveQuery.Accumulator
import LiveQuery.Binary64
import LiveQuery.Binary64.Hex
import LiveQuery.Change
import LiveQuery.Change.Tagged
import LiveQuery.Collection
import LiveQuery.Decimal.Positional
import LiveQuery.Decimal.Shortest
import LiveQuery.Engine
import LiveQuery.Evaluator
import LiveQuery.Evaluator.Error
import LiveQuery.Evaluator.Functions
import LiveQuery.Function
import LiveQuery.Graph
import LiveQuery.Graph.Dot
import LiveQuery.Graph.Node
import LiveQuery.Graph.Order
import LiveQuery.Graph.Walk
import LiveQuery.Hash
import LiveQuery.Json
import LiveQuery.Json.Number
import LiveQuery.Json.Parser
import LiveQuery.Json.Printer
import LiveQuery.Json.Record
import LiveQuery.Key
import LiveQuery.Live
import LiveQuery.Live.Error
import LiveQuery.Live.Options
import LiveQuery.OrdMap
import LiveQuery.Plan
import LiveQuery.Plan.Checking
import LiveQuery.Plan.Draft
import LiveQuery.Plan.Error
import LiveQuery.Plan.Expr
import LiveQuery.Plan.Filters
import LiveQuery.Plan.FreeAliases
import LiveQuery.Scalar
import LiveQuery.Scalar.Order
import LiveQuery.Scalar.Text
import LiveQuery.Session
import LiveQuery.Text.Case
import LiveQuery.Text.CaseMap
import LiveQuery.Text.Cased
import LiveQuery.Text.Extending
import LiveQuery.Text.Hex
import LiveQuery.Text.Printable
import LiveQuery.Text.Quoted
import LiveQuery.Text.Ranges
import LiveQuery.Tuple
import LiveQuery.View
import LiveQuery.View.Projection
import LiveQuery.View.Upkeep
import LiveQuery.View.Window
import LiveQuery.Proofs.Map
import LiveQuery.Proofs.Replay
import LiveQuery.Proofs.Dedup
import LiveQuery.Proofs.Operation
import LiveQuery.Proofs.View.Output
import LiveQuery.Proofs.Graph.Listing
import LiveQuery.Proofs.Graph.Visits
import LiveQuery.Proofs.Graph.Root
import LiveQuery.Proofs.Engine.Output
import LiveQuery.Proofs.Session.Parts
import LiveQuery.Proofs.Session.Run
import LiveQuery.Proofs.Session.Turns
import LiveQuery.Proofs.Session.Queue
import LiveQuery.Proofs.Session.Named
import LiveQuery.Proofs.Session.Ageing
import LiveQuery.Proofs.Session.Stack
import LiveQuery.Proofs.Engine.Reads
import LiveQuery.Proofs.Session.Engines
import LiveQuery.Proofs.Session.Listening
import LiveQuery.Proofs.Session.Subscribers
import LiveQuery.Proofs.Session.Stream
import LiveQuery.Proofs.Graph.Aliases
import LiveQuery.Proofs.Collection
import LiveQuery.Proofs.Session.Commits
import LiveQuery.Proofs.Engine.Convergence
import LiveQuery.Proofs.Accumulator
import LiveQuery.Proofs.Evaluator
import LiveQuery.Proofs.View.Agreement
import LiveQuery.Proofs.Tuple
import LiveQuery.Proofs.Transaction
import LiveQuery.Proofs.Plan.Pool
import LiveQuery.Proofs.Plan.Written
import LiveQuery.Proofs.Plan.Chains
import LiveQuery.Proofs.Plan.Unfolding
import LiveQuery.Proofs.Graph.Cycles
import LiveQuery.Proofs.Graph.Kinds
import LiveQuery.Proofs.Graph.Unfolding
import LiveQuery.Proofs.Graph.Reach
import LiveQuery.Proofs.Graph.Acyclic
import LiveQuery.Proofs.Engine.Nesting
import LiveQuery.Proofs.Plan.Validity
import LiveQuery.Proofs.Graph.Aggregates
import LiveQuery.Proofs.View.Provision
import LiveQuery.Proofs.Engine.Provision
import LiveQuery.Proofs.Strictness
import LiveQuery.Proofs.View.Strictness
import LiveQuery.Proofs.Engine.Strictness
import LiveQuery.Proofs.Hash
import LiveQuery.Proofs.Comparison
import LiveQuery.Proofs.Session.Cancellation
import LiveQuery.Proofs.Plan.Course
import LiveQuery.Proofs.Plan.Naming
import LiveQuery.Proofs.Plan.Finishing
import LiveQuery.Proofs.View.Tuples
import LiveQuery.Proofs.View.DeltaJoin
import LiveQuery.Proofs.Conditions
import LiveQuery.Proofs.Thinning
import LiveQuery.Proofs.Engine.Pushdown
import LiveQuery.Proofs.Join.Combination
import LiveQuery.Proofs.Join.Relational
import LiveQuery.Proofs.Join.Keys
import LiveQuery.Proofs.View.Keys
import LiveQuery.Proofs.Engine.Keys
import LiveQuery.Proofs.Engine.Lateral
import LiveQuery.Proofs.Engine.Unfiltered
import LiveQuery.Proofs.Accumulator.Requests
import LiveQuery.Proofs.Engine.Outside
import LiveQuery.Proofs.Failures
import LiveQuery.Proofs.Engine.Failures
import LiveQuery.Proofs.View.Groups
import LiveQuery.Proofs.View.Staging
import LiveQuery.Proofs.Engine.Upkeep
import LiveQuery.Proofs.Graph.Inputs
import LiveQuery.Proofs.View.Window
import LiveQuery.Proofs.Row
import LiveQuery.Proofs.Engine.Subqueries
import LiveQuery.Proofs.Engine.Binding
import LiveQuery.Proofs.View.Current
import LiveQuery.Proofs.Engine.Redelivery
import LiveQuery.Proofs.Graph.Image
import LiveQuery.Proofs.Binary64
import LiveQuery.Proofs.Numbers
import LiveQuery.Proofs.Json
import LiveQuery.Proofs.Graph.Counting
import LiveQuery.Proofs.Graph.Affected
import LiveQuery.Proofs.Engine.Affected
import LiveQuery.Proofs.View.Index
import LiveQuery.Proofs.Missing
import LiveQuery.Proofs.View.Upholding
import LiveQuery.Proofs.View.Missing
import LiveQuery.Proofs.Engine.Missing
