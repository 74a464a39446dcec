import ShardPlan.Arithmetic.Checked
import ShardPlan.Arithmetic.Outcome
import ShardPlan.Arithmetic.Scalar
import ShardPlan.Candidate.Boundary
import ShardPlan.Candidate.Elementwise
import ShardPlan.Candidate.Linear
import ShardPlan.Candidate.Operand
import ShardPlan.Candidate.Strategy
import ShardPlan.Collections.SortedMap
import ShardPlan.Cost
import ShardPlan.Decimal.Notation
import ShardPlan.Decimal.Numeral
import ShardPlan.Decimal.Reading
import ShardPlan.Decimal.Shortest
import ShardPlan.Json.Record
import ShardPlan.Json.Text
import ShardPlan.Json.Token
import ShardPlan.Json.Value
import ShardPlan.Layout.Basic
import ShardPlan.Layout.Sequence
import ShardPlan.Layout.Shards
import ShardPlan.Layout.Violation
import ShardPlan.Mesh.Basic
import ShardPlan.Mesh.Collective
import ShardPlan.Mesh.Description
import ShardPlan.Mesh.Draft
import ShardPlan.Network.Graph
import ShardPlan.Network.ModuleTree
import ShardPlan.Planning.Handler
import ShardPlan.Planning.Options
import ShardPlan.Planning.Plan
import ShardPlan.Planning.Refusal
import ShardPlan.Planning.Registration
import ShardPlan.Planning.Registry
import ShardPlan.Planning.Session
import ShardPlan.Planning.Site
import ShardPlan.Reshard.Move
import ShardPlan.Reshard.Oracle
import ShardPlan.Reshard.Route
import ShardPlan.Reshard.Transition
import ShardPlan.Stored
import ShardPlan.Tensor
import ShardPlan.Proofs.Layout.Fit
import ShardPlan.Proofs.Reshard.Reach
import ShardPlan.Proofs.Reshard.Relocation
import ShardPlan.Proofs.Reshard.Validity
import ShardPlan.Proofs.Layout.Shards
import ShardPlan.Proofs.Layout.FirstViolation
import ShardPlan.Proofs.Layout.Within
import ShardPlan.Proofs.Layout.Pairs
import ShardPlan.Proofs.Candidate.Elementwise
import ShardPlan.Proofs.Candidate.Linear
import ShardPlan.Proofs.Candidate.Values
import ShardPlan.Proofs.Reshard.Pricing
import ShardPlan.Proofs.Reshard.Duality
import ShardPlan.Proofs.Reshard.ExactPrices
import ShardPlan.Proofs.Reshard.Itinerary
import ShardPlan.Proofs.Planning.Run
import ShardPlan.Proofs.Planning.Resharding
import ShardPlan.Proofs.Planning.Registration
import ShardPlan.Proofs.Network.Levels
import ShardPlan.Proofs.Network.Building
import ShardPlan.Proofs.Network.Chains
import ShardPlan.Proofs.Network.Paths
import ShardPlan.Proofs.Planning.Alignment
import ShardPlan.Proofs.Planning.Consistency
import ShardPlan.Proofs.Planning.Order
import ShardPlan.Proofs.Candidate.Covers
import ShardPlan.Proofs.Planning.Handlers
import ShardPlan.Proofs.Planning.Committed
import ShardPlan.Proofs.Planning.Sessions
import ShardPlan.Proofs.Planning.Queries
import ShardPlan.Proofs.Planning.Validity
import ShardPlan.Proofs.Planning.Standard
import ShardPlan.Proofs.Planning.Success
import ShardPlan.Proofs.Planning.LinearLayers
import ShardPlan.Proofs.Planning.Computes
import ShardPlan.Proofs.Planning.ElementwiseNodes
import ShardPlan.Proofs.Planning.Refusing
import ShardPlan.Proofs.Planning.Simulation
import ShardPlan.Proofs.Planning.Memory
import ShardPlan.Proofs.Planning.Safety
import ShardPlan.Proofs.Planning.Deterministic
import ShardPlan.Proofs.Planning.Records
import ShardPlan.Proofs.Planning.DeadEnds
import ShardPlan.Proofs.Planning.Unpriced
import ShardPlan.Proofs.Planning.Precedence
import ShardPlan.Proofs.Planning.Replicated
import ShardPlan.Proofs.Arithmetic.FloatSums
import ShardPlan.Proofs.Planning.UsableCosts
import ShardPlan.Proofs.Planning.Returned
import ShardPlan.Proofs.Layout.LocalShape
import ShardPlan.Proofs.Layout.Transposing
import ShardPlan.Proofs.Planning.Sorting
import ShardPlan.Proofs.Candidate.LinearCosts
import ShardPlan.Proofs.Layout.Spelling
import ShardPlan.Proofs.Layout.Texts
import ShardPlan.Proofs.Candidate.OutputLayouts
import ShardPlan.Proofs.Candidate.Selections
import ShardPlan.Proofs.Candidate.Enumeration
import ShardPlan.Proofs.Mesh.ExactPrices
import ShardPlan.Proofs.Mesh.Drafts
import ShardPlan.Proofs.Mesh.Descriptions
import ShardPlan.Proofs.Reshard.Histories
import ShardPlan.Proofs.Decimal.Numerals
import ShardPlan.Proofs.Json.Literals
import ShardPlan.Proofs.Json.Tokens
import ShardPlan.Proofs.Json.Values
import ShardPlan.Proofs.Json.Records
import ShardPlan.Proofs.Json.StoredForms
