import ShardPlan.Candidate.Strategy
import ShardPlan.Decimal.Notation
import ShardPlan.Layout.Sequence
import ShardPlan.Layout.Violation

/-! # Refusals

Why a graph, a node or a strategy is refused. Every refusal names the node it lies with. -/

namespace ShardPlan

/-- The fields of a cost in text. -/
def costText (c : StepCost) : String :=
  let forward := Notation.message.text c.forward
  let backward := Notation.message.text c.backward
  let total := Notation.message.text c.total
  s!"TrainCycleItem \x7b forward: {forward}, backward: {backward}, total: {total} \x7d"

/-- What is wrong with a node or with the graph around it. -/
inductive Reason where
  | tooFewArguments (needed count : Nat)
  | unknownArgument (id : Nat)
  /-- An argument is no tensor. -/
  | untypedArgument (argument : NodeLabel)
  /-- The result is no tensor. -/
  | untypedResult
  | unknownNode (id : Nat)
  | unknownPredecessor (id : Nat)
  /-- A strategy has no operand that a predecessor holds. -/
  | noArgumentFrom (strategy : String) (predecessor : NodeLabel)
  | untypedOperand (operand : String)
  /-- A strategy of a predecessor has no result. -/
  | noResult (strategy : String) (predecessor : NodeLabel)
  /-- The oracle answered a cost that cannot be used. -/
  | unusableCost (cost : StepCost) (source target : String)
  /-- An element-wise function has no arguments or too many. -/
  | argumentCount (count : Nat)
  | missingOperand (name : String)
  /-- The weight of a linear layer is no matrix. -/
  | weightRank (shape : List Nat)
  /-- A strategy says nothing about the weight. -/
  | noWeightLayout (strategy : String)
  | noModuleCalled
  /-- The graph has no module that owns the modules it calls. -/
  | noOwner
  | unresolvedModule (path : String)
  | missingParameter (kind name : String)
  | noFunctionHandler (name : String)
  | noModuleHandler (kind : String)
  | allRejected (count : Nat)
  /-- What a handler of its own kind objects to. -/
  | other (text : String)

/-- What a reason says. -/
def Reason.text : Reason → String
  | tooFewArguments needed count => s!"expected at least {needed} argument(s), got {count}"
  | unknownArgument id =>
    let node := nodeText id
    s!"argument {node} is not part of the graph"
  | untypedArgument argument =>
    let argument := argument.text
    s!"argument {argument} has no tensor metadata"
  | untypedResult => "the node output has no tensor metadata"
  | unknownNode id =>
    let node := nodeText id
    s!"node {node} is not part of the graph"
  | unknownPredecessor id =>
    let node := nodeText id
    s!"predecessor {node} is not part of the graph"
  | noArgumentFrom strategy predecessor =>
    let predecessor := predecessor.text
    s!"strategy '{strategy}' has no operand produced by predecessor {predecessor}"
  | untypedOperand operand => s!"operand '{operand}' has no tensor metadata"
  | noResult strategy predecessor =>
    let predecessor := predecessor.text
    s!"strategy '{strategy}' of predecessor {predecessor} exposes no output"
  | unusableCost cost source target =>
    let cost := costText cost
    s!"layout oracle returned an invalid cost {cost} for {source} -> {target}"
  | argumentCount count => s!"element-wise functions take 1 or 2 arguments, got {count}"
  | missingOperand name => s!"missing operand '{name}'"
  | weightRank shape =>
    let shape := sizesText shape
    s!"linear weight must have rank 2, got shape {shape}"
  | noWeightLayout strategy => s!"strategy '{strategy}' has no layout for the weight"
  | noModuleCalled => "the node does not call a module"
  | noOwner => "the graph is not associated with an owning module"
  | unresolvedModule path => s!"module '{path}' cannot be resolved in the owning module"
  | missingParameter kind name => s!"module of kind '{kind}' has no parameter '{name}'"
  | noFunctionHandler name => s!"no handler registered for function '{name}'"
  | noModuleHandler kind => s!"no handler registered for modules of kind '{kind}'"
  | allRejected count => s!"all {count} candidate strategies were rejected"
  | other text => text

/-- Why planning stops, or why a strategy is left out. -/
inductive Refusal where
  /-- The node cannot be handled. -/
  | misconfigured (node : NodeLabel) (reason : Reason)
  /-- A predecessor has no strategies yet. -/
  | unordered (node predecessor : NodeLabel)
  /-- A layout does not fit its operand. -/
  | misfit (node : NodeLabel) (operand : String) (layout : Layout) (shape : List Nat)
    (violation : Violation)

namespace Refusal

/-- The node that a refusal lies with. -/
def node : Refusal → NodeLabel
  | misconfigured node _ | unordered node _ | misfit node .. => node

/-- The text that reports a refusal. -/
def message : Refusal → Checked String
  | misconfigured node reason =>
    let node := node.text
    let reason := reason.text
    .ok s!"Configuration error on node {node}: {reason}"
  | unordered node predecessor =>
    let node := node.text
    let predecessor := predecessor.text
    .ok s!"Node {node} was processed before its predecessor {predecessor} published its strategies"
  | misfit node operand layout shape violation => do
    let layout ← layout.sequence shape.length
    let node := node.text
    let violation := violation.message
    let sizes := sizesText shape
    return s!"Invalid layout {layout} for operand '{operand}' of node {node} with shape {sizes}: "
      ++ violation

end Refusal

end ShardPlan
