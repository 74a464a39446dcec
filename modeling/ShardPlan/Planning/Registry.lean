import ShardPlan.Planning.Handler

/-! # Registries

A registry says how the nodes of a graph are handled. Inputs and outputs always have their own handlers;
functions are looked up by name, and modules by their kind. -/

namespace ShardPlan

/-- The ways to handle functions and modules. -/
structure Registry where
  /-- The factories of functions, by name. -/
  functions : SortedMap String Factory := .empty
  /-- The factories of modules, by kind. -/
  modules : SortedMap String Factory := .empty

namespace Registry

/-- The registry that handles no function and no module. -/
def empty : Registry := {}

/-- The registry with a function added or replaced. -/
def withFunction (r : Registry) (name : String) (factory : Factory) : Registry :=
  { r with functions := r.functions.insert name factory }

/-- The registry with a kind of module added or replaced. -/
def withModule (r : Registry) (kind : String) (factory : Factory) : Registry :=
  { r with modules := r.modules.insert kind factory }

/-- The element-wise functions that are known. -/
def elementwiseNames : List String := ["add", "sub", "mul", "div", "relu", "gelu", "neg"]

/-- The registry of the element-wise functions and of linear layers. -/
def standard : Registry :=
  (elementwiseNames.foldl (fun r name => r.withFunction name Handler.elementwise) empty).withModule
    "linear" Handler.linear

/-- The handler of a node. -/
def handler (r : Registry) (site : Site) : Planned Handler :=
  match site.node.operation with
  | .input => Handler.input site
  | .output => Handler.output site
  | .function name =>
    match r.functions.get? name with
    | none => site.refuse (.noFunctionHandler name)
    | some factory => factory site
  | .module path =>
    match site.graph.owner.bind fun owner => owner.descendant? path with
    | none => site.refuse (.unresolvedModule path)
    | some m =>
      match r.modules.get? m.kind with
      | none => site.refuse (.noModuleHandler m.kind)
      | some factory => factory site

end Registry

end ShardPlan
