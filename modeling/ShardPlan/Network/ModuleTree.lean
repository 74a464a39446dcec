import ShardPlan.Collections.SortedMap
import ShardPlan.Tensor

/-! # Module trees

A module holds parameters and buffers under their names, and further modules as its children. A
descendant is found by the names on the way to it, with dots between them. -/

namespace ShardPlan

/-- A module of a network and the modules below it. -/
structure ModuleTree where
  /-- What the module computes, such as `linear`. -/
  kind : String
  /-- The trained tensors of the module itself. -/
  parameters : SortedMap String TensorType := .empty
  /-- The other tensors of the module itself. -/
  buffers : SortedMap String TensorType := .empty
  /-- The modules below; of two with one name the first counts. -/
  children : List (String × ModuleTree) := []

namespace ModuleTree

instance : Inhabited ModuleTree := ⟨{ kind := "" }⟩

/-- The module with a parameter added or replaced. -/
def withParameter (m : ModuleTree) (name : String) (t : TensorType) : ModuleTree :=
  { m with parameters := m.parameters.insert name t }

/-- The module with a buffer added or replaced. -/
def withBuffer (m : ModuleTree) (name : String) (t : TensorType) : ModuleTree :=
  { m with buffers := m.buffers.insert name t }

/-- The module with a child added or replaced. -/
def withChild (m : ModuleTree) (name : String) (child : ModuleTree) : ModuleTree :=
  { m with children := (name, child) :: m.children }

/-- The child with a name. -/
def child? (m : ModuleTree) (name : String) : Option ModuleTree := m.children.lookup name

/-- The pieces of a text between its dots. -/
def splitDots : List Char → List (List Char)
  | [] => [[]]
  | c :: cs =>
    if c = '.' then [] :: splitDots cs
    else match splitDots cs with
      | [] => [[c]]
      | piece :: pieces => (c :: piece) :: pieces

/-- The names on a path. -/
def pathNames (path : String) : List String := (splitDots path.toList).map String.ofList

/-- The descendant at a path. The empty path leads to the module itself. -/
def descendant? (m : ModuleTree) (path : String) : Option ModuleTree :=
  if path.isEmpty then some m else (pathNames path).foldlM child? m

end ModuleTree

end ShardPlan
