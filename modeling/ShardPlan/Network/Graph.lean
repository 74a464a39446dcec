import ShardPlan.Arithmetic.Checked
import ShardPlan.Network.ModuleTree

/-! # Computation graphs

A graph is built node by node. A node may only use nodes that were added before it, so the graph has no
cycles, and its number is its position. Each node also lists the nodes that use it. -/

namespace ShardPlan

/-- What a node does. -/
inductive Operation where
  /-- It is fed from outside. -/
  | input
  /-- It returns its arguments. -/
  | output
  /-- It applies the named function to its arguments. -/
  | function (name : String)
  /-- It applies the module at a path to its arguments. -/
  | module (path : String)
deriving DecidableEq, Repr

/-- The number of a node in text. -/
def nodeText (id : Nat) : String := s!"#{id}"

/-- The number and the name of a node. -/
structure NodeLabel where
  id : Nat
  name : String
deriving DecidableEq, Repr

/-- A label in text. -/
def NodeLabel.text (label : NodeLabel) : String :=
  let id := nodeText label.id
  label.name ++ s!" ({id})"

/-- A node of a computation graph. -/
structure Node where
  id : Nat
  name : String
  operation : Operation
  /-- The nodes whose results are the arguments, in order. -/
  args : List Nat
  /-- The nodes that use the result. -/
  users : List Nat
  /-- The type of the result, if it is a tensor. -/
  tensor : Option TensorType
deriving Repr

namespace Node

/-- The label of a node. -/
def label (n : Node) : NodeLabel := ⟨n.id, n.name⟩

/-- The different arguments in the order of their first use. -/
def predecessors (n : Node) : List Nat := n.args.eraseDups

/-- The node with a further user, unless it is one already. -/
def usedBy (n : Node) (id : Nat) : Node :=
  if n.users.contains id then n else { n with users := n.users ++ [id] }

/-- A further user changes nothing that does not depend on the users. -/
theorem congr_usedBy {α : Type} {f : Node → α} (hf : ∀ n users, f { n with users := users } = f n)
    (n : Node) (id : Nat) : f (n.usedBy id) = f n := by
  rw [usedBy]
  split
  · rfl
  · exact hf n _

end Node

/-- Nodes in the order they were added, and the module that owns the modules they call. -/
structure Graph where
  /-- The nodes in the order they were added. -/
  nodes : List Node
  /-- The module that owns the modules that the nodes call, if there is one. -/
  owner : Option ModuleTree
  /-- The number of a node is its position. -/
  map_id_nodes : nodes.map Node.id = List.range nodes.length
  /-- A node only uses nodes that were added before it. -/
  args_lt : ∀ n ∈ nodes, ∀ arg ∈ n.args, arg < n.id

namespace Graph

/-- The graph without nodes. -/
def empty : Graph := ⟨[], none, rfl, nofun⟩

instance : Inhabited Graph := ⟨empty⟩

/-- The number of nodes. -/
def size (g : Graph) : Nat := g.nodes.length

/-- The node with a number. -/
def node? (g : Graph) (id : Nat) : Option Node := g.nodes[id]?

/-- The graph whose nodes call the modules below `m`. -/
def withOwner (g : Graph) (m : ModuleTree) : Graph := { g with owner := some m }

/-! ### Adding nodes -/

/-- The nodes, where one argument after the other gets the user `id`. -/
def wire (args : List Nat) (id : Nat) (nodes : List Node) : List Node :=
  args.foldl (fun nodes arg => nodes.modify arg (·.usedBy id)) nodes

/-- Wiring changes only the users. -/
theorem map_wire {α : Type} {f : Node → α} (hf : ∀ n users, f { n with users := users } = f n)
    (id : Nat) : ∀ (args : List Nat) (nodes : List Node), (wire args id nodes).map f = nodes.map f
  | [], _ => rfl
  | arg :: args, nodes => by
    have hmodify : (nodes.modify arg (·.usedBy id)).map f = nodes.map f := by
      refine List.ext_getElem? fun i => ?_
      rw [List.getElem?_map, List.getElem?_modify, List.getElem?_map]
      cases nodes[i]? with
      | none => rfl
      | some n =>
        by_cases h : arg = i
        · simp [h, Node.congr_usedBy hf]
        · simp [h]
    exact (map_wire hf id args _).trans hmodify

theorem length_wire (args : List Nat) (id : Nat) (nodes : List Node) :
    (wire args id nodes).length = nodes.length := by
  have hids := congrArg List.length (map_wire (f := Node.id) (fun _ _ => rfl) id args nodes)
  rwa [List.length_map, List.length_map] at hids

/-- The nodes of a graph with a further one. -/
def extend (g : Graph) (name : String) (operation : Operation) (args : List Nat)
    (tensor : Option TensorType) : List Node :=
  wire args g.size g.nodes ++ [⟨g.size, name, operation, args, [], tensor⟩]

theorem map_id_extend (g : Graph) (name : String) (operation : Operation) (args : List Nat)
    (tensor : Option TensorType) :
    (g.extend name operation args tensor).map Node.id
      = List.range (g.extend name operation args tensor).length := by
  have hlength : (g.extend name operation args tensor).length = g.size + 1 := by
    rw [extend, List.length_append, length_wire, List.length_singleton, size]
  rw [hlength, List.range_succ, extend, List.map_append, map_wire (fun _ _ => rfl), g.map_id_nodes,
    List.map_singleton, size]

theorem args_lt_extend (g : Graph) (name : String) (operation : Operation) {args : List Nat}
    (tensor : Option TensorType) (h : ∀ arg ∈ args, arg < g.size) :
    ∀ n ∈ g.extend name operation args tensor, ∀ arg ∈ n.args, arg < n.id := by
  intro n hn
  rcases List.mem_append.mp hn with hn | hn
  · -- the node was there before, with the same number and arguments
    have hold : (n.id, n.args) ∈ g.nodes.map fun n => (n.id, n.args) := by
      rw [← map_wire (fun _ _ => rfl) g.size args g.nodes]
      exact List.mem_map.mpr ⟨n, hn, rfl⟩
    obtain ⟨n', hn', hsame⟩ := List.mem_map.mp hold
    obtain ⟨hid, hargs⟩ := Prod.mk.inj hsame
    rw [← hid, ← hargs]
    exact g.args_lt n' hn'
  · rw [List.mem_singleton.mp hn]
    exact h

/-- The graph with a further node, unless an argument was not added before. -/
def add? (g : Graph) (name : String) (operation : Operation) (args : List Nat)
    (tensor : Option TensorType) : Option Graph :=
  if h : ∀ arg ∈ args, arg < g.size then
    some {
      nodes := g.extend name operation args tensor
      owner := g.owner
      map_id_nodes := g.map_id_extend name operation args tensor
      args_lt := g.args_lt_extend name operation tensor h }
  else none

/-- The graph with a further node; an argument that was not added before is a fault. -/
def add (g : Graph) (name : String) (operation : Operation) (args : List Nat)
    (tensor : Option TensorType) : Checked Graph :=
  match g.add? name operation args tensor with
  | some g => .ok g
  | none => .error .danglingArgument

/-! ### Levels -/

/-- The levels, where `id` is put last in the one of a depth. Missing levels are added without nodes. -/
def putAt (levels : List (List Nat)) (depth id : Nat) : List (List Nat) :=
  (levels.rightpad (depth + 1) []).modify depth (· ++ [id])

/-- The levels once further nodes are put in them. The depth of a node is one more than the greatest depth
of an argument, or zero without arguments; `depths` are those of the nodes before. -/
def levelsFrom (depths : List Nat) (levels : List (List Nat)) : List Node → List (List Nat)
  | [] => levels
  | n :: nodes =>
    let depth := (n.args.map fun arg => depths.getD arg 0 + 1).foldl max 0
    levelsFrom (depths ++ [depth]) (putAt levels depth n.id) nodes

/-- The nodes of each depth, in the order they were added. -/
def levels (g : Graph) : List (List Nat) := levelsFrom [] [] g.nodes

/-- All nodes, level by level. -/
def order (g : Graph) : List Nat := g.levels.flatten

end Graph

end ShardPlan
