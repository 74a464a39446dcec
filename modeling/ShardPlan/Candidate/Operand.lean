import ShardPlan.Layout.Shards
import ShardPlan.Network.Graph

/-! # Operands

An operand is a piece of data that the operation of a node reads or writes. Arguments and results name
the node that holds the value, so that the argument of one node can be matched with the result of
another. -/

namespace ShardPlan

/-- What an operand is to the operation. -/
inductive Role where
  /-- The result of another node. -/
  | argument
  /-- A trained tensor of the module of the node. -/
  | parameter
  /-- Another tensor of the module of the node. -/
  | buffer
  /-- The result of the node. -/
  | result
deriving DecidableEq, Repr

/-- A piece of data of an operation. -/
structure Operand where
  name : String
  role : Role
  /-- The type of the data, if it is a tensor. -/
  tensor : Option TensorType
  /-- The node that holds the value, for arguments and results. -/
  node : Option Nat
deriving DecidableEq, Repr

namespace Operand

/-- The result of a node as an argument of another one. -/
def ofArgument (n : Node) : Operand := ⟨n.name, .argument, n.tensor, some n.id⟩

/-- The result of a node. -/
def ofResult (n : Node) : Operand := ⟨n.name, .result, n.tensor, some n.id⟩

/-- A parameter of a module. -/
def ofParameter (name : String) (t : TensorType) : Operand := ⟨name, .parameter, some t, none⟩

/-- The same data seen as another tensor. -/
def withTensor (o : Operand) (t : TensorType) : Operand := { o with tensor := some t }

/-- Whether the operand is an argument that a node holds. -/
def isArgumentFrom (o : Operand) (node : Nat) : Bool := o.role = .argument && o.node = some node

/-- The shape of the data, empty if it is no tensor. -/
def shape (o : Operand) : List Nat :=
  match o.tensor with
  | some t => t.shape
  | none => []

/-- The number of dimensions of the data. -/
def rank (o : Operand) : Nat := o.shape.length

/-- The bytes that one device holds of the data, none if it is no tensor. -/
def localBytes {K : Type} [Scalar K] (o : Operand) (l : Layout) (mesh : Mesh K) : Checked K :=
  match o.tensor with
  | some t => l.localBytes t mesh
  | none => .ok 0.0

end Operand

end ShardPlan
