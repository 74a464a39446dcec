import ShardPlan.Planning.Options
import ShardPlan.Planning.Registration
import ShardPlan.Planning.Registry

/-! # Plans

A graph is planned level by level. The nodes of a level are registered against the strategies of the
levels before, and then settled in order: the first refusal ends the plan. -/

namespace ShardPlan

/-- The strategies found for the nodes of a graph. -/
structure Plan where
  published : Published := .empty
  /-- Why strategies were left out, node by node. -/
  diagnostics : List Refusal := []
  deadEnds : List Nat := []

/-- What decides how graphs are planned. -/
structure Planner where
  mesh : Mesh
  registry : Registry := .standard
  /-- What is asked beside layouts. -/
  options : Options := {}

namespace Plan

/-- The number of strategies of all nodes. -/
def strategyCount (plan : Plan) : Nat :=
  plan.published.values.foldl (fun count candidates => count + candidates.strategies.length) 0

/-- The last event of a plan. -/
def summary (plan : Plan) : Event :=
  .planned plan.published.size plan.strategyCount plan.diagnostics.length plan.deadEnds.length

/-- The plan with a further node. -/
def settle (options : Options) (label : NodeLabel) (plan : Plan) (id : Nat) :
    Except Refusal Registration → Planned Plan
  | .error refusal => .error (.refusal refusal)
  | .ok registration =>
    if registration.isDeadEnd && options.failOnDeadEnd then
      .error (.refusal (.misconfigured label (.allRejected registration.rejected.length)))
    else .ok {
      published := plan.published.insert id registration.candidates
      diagnostics := plan.diagnostics ++ registration.rejected
      deadEnds := if registration.isDeadEnd then plan.deadEnds ++ [id] else plan.deadEnds }

end Plan

namespace Planner

/-- The label of a node, without a name if the graph does not have the node. -/
def label (graph : Graph) (id : Nat) : NodeLabel :=
  match graph.node? id with
  | some node => node.label
  | none => ⟨id, ""⟩

/-- The site and the handler of a node. -/
def handlerAt (planner : Planner) (graph : Graph) (id : Nat) : Planned (Site × Handler) :=
  match graph.node? id with
  | none => .error (.refusal (.misconfigured (label graph id) (.unknownNode id)))
  | some node => do
    let site : Site := ⟨graph, node, planner.mesh⟩
    let handler ← planner.registry.handler site
    return (site, handler)

section Running

variable {m : Type → Type} [Monad m] [MonadExceptOf (Failure Refusal) m]

/-- Registers a node of a graph. -/
def registerAt (planner : Planner) (session : Session m) (graph : Graph) (published : Published)
    (id : Nat) : m Registration := do
  let (site, handler) ← raise (planner.handlerAt graph id)
  register session site published handler planner.options.priceResharding

/-- The plan with a further node, given what came of its registration. -/
def settleAt (planner : Planner) (graph : Graph) (plan : Plan)
    (result : Nat × Except Refusal Registration) : Planned Plan :=
  plan.settle planner.options (label graph result.1) result.1 result.2

/-- The plan with the nodes of a further level. -/
def planLevel (planner : Planner) (session : Session m) (graph : Graph) (plan : Plan)
    (level : List Nat) : m Plan := do
  let results ← level.mapM fun id =>
    attempt (planner.registerAt session graph plan.published id)
  raise ((level.zip results).foldlM (planner.settleAt graph) plan)

/-- The plan of a graph. -/
def plan (planner : Planner) (session : Session m) (graph : Graph) : m Plan := do
  let plan ← graph.levels.foldlM (planner.planLevel session graph) {}
  session.note plan.summary
  pure plan

/-- The plan with one further node, which is published at once. -/
def planNode (planner : Planner) (session : Session m) (graph : Graph) (plan : Plan) (id : Nat) :
    m Plan := do
  let result ← attempt (planner.registerAt session graph plan.published id)
  raise (planner.settleAt graph plan (id, result))

/-- The plan of the nodes of a graph one at a time, in a given order. -/
def planInOrder (planner : Planner) (session : Session m) (graph : Graph) (order : List Nat) :
    m Plan := do
  let plan ← order.foldlM (planner.planNode session graph) {}
  session.note plan.summary
  pure plan

end Running

end Planner

end ShardPlan
