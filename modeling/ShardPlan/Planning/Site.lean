import ShardPlan.Arithmetic.Outcome
import ShardPlan.Planning.Refusal

/-! # Sites

A site is a node in its graph, to be planned on a mesh. It gives the operands of the node, or the reason
why the node has them not. -/

namespace ShardPlan

/-- The outcome of a step of planning. -/
abbrev Planned := Outcome Refusal

/-- A node to plan and what surrounds it. -/
structure Site where
  /-- The graph that the arguments of the node are looked up in. -/
  graph : Graph
  node : Node
  mesh : Mesh

namespace Site

/-- Refuses the node for a reason. -/
def refuse {α : Type} (site : Site) (reason : Reason) : Planned α :=
  .error (.refusal (.misconfigured site.node.label reason))

/-- The argument of a number, as an operand. -/
def argument (site : Site) (index : Nat) : Planned Operand :=
  match site.node.args[index]? with
  | none => do
    let needed ← Size.succ index
    site.refuse (.tooFewArguments needed site.node.args.length)
  | some id =>
    match site.graph.node? id with
    | none => site.refuse (.unknownArgument id)
    | some arg =>
      if arg.tensor.isNone then site.refuse (.untypedArgument arg.label)
      else .ok (.ofArgument arg)

/-- The result of the node, as an operand. -/
def result (site : Site) : Planned Operand :=
  if site.node.tensor.isNone then site.refuse .untypedResult else .ok (.ofResult site.node)

/-- The module that the node calls. -/
def calledModule (site : Site) : Planned ModuleTree :=
  match site.node.operation with
  | .module path =>
    match site.graph.owner with
    | none => site.refuse .noOwner
    | some owner =>
      match owner.descendant? path with
      | none => site.refuse (.unresolvedModule path)
      | some m => .ok m
  | _ => site.refuse .noModuleCalled

/-- A parameter of a module. -/
def parameter (site : Site) (m : ModuleTree) (name : String) : Planned TensorType :=
  match m.parameters.get? name with
  | none => site.refuse (.missingParameter m.kind name)
  | some t => .ok t

/-- The node that holds a predecessor. -/
def predecessor (site : Site) (id : Nat) : Planned Node :=
  match site.graph.node? id with
  | none => site.refuse (.unknownPredecessor id)
  | some node => .ok node

/-- The first operand of a strategy, in order, whose layout does not fit it. -/
def findMisfit (site : Site) : List (Operand × Layout) → Checked (Option Refusal)
  | [] => .ok none
  | (operand, layout) :: rest =>
    match operand.tensor with
    | none => findMisfit site rest
    | some t => do
      match ← layout.violation? t site.mesh with
      | some violation =>
        return some (.misfit site.node.label operand.name layout t.shape violation)
      | none => findMisfit site rest

/-- What keeps a strategy from being used, if anything does. -/
def misfit? (site : Site) (s : Strategy) : Checked (Option Refusal) := site.findMisfit s.layouts

end Site

end ShardPlan
