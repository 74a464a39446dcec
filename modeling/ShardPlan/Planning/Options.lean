/-! # Options of the planner -/

namespace ShardPlan

/-- What a planner is asked to do beside choosing layouts. -/
structure Options where
  /-- Annotate the strategies with the prices of moving between layouts. -/
  priceResharding : Bool := true
  /-- Allow the nodes of a level to be handled at the same time. -/
  parallel : Bool := true
  /-- Refuse a graph with a node whose strategies were all rejected. -/
  failOnDeadEnd : Bool := false
deriving DecidableEq, Repr

end ShardPlan
