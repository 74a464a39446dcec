import ShardPlan.Layout.Shards

/-! # Layouts that fit a tensor

A layout fits a tensor on a mesh if every split dimension belongs to the tensor, every axis belongs to
the mesh and is used once, and every split dimension is cut into equal shards that are not empty. The
dimensions are checked in ascending order, and the first rule that is broken is reported. -/

namespace ShardPlan

/-- Why a layout does not fit a tensor. -/
inductive Violation where
  | dimOutOfRange (dim rank : Nat)
  | axisNotInMesh (axis : Nat) (shape : List Nat)
  | axisReused (axis : Nat)
  /-- A dimension cannot be cut into equal shards that are not empty. -/
  | notDivisible (dim size shards : Nat)
deriving DecidableEq, Repr

/-- The text that reports a violation. -/
def Violation.message : Violation → String
  | dimOutOfRange dim rank => s!"dimension {dim} is out of range for a tensor of rank {rank}"
  | axisNotInMesh axis shape =>
    let shape := sizesText shape
    s!"mesh axis {axis} does not exist in a mesh of shape {shape}"
  | axisReused axis => s!"mesh axis {axis} is assigned more than once"
  | notDivisible dim size shards =>
    s!"dimension {dim} of size {size} cannot be split evenly into {shards} shards"

namespace Layout

variable {K : Type}

/-- The first axis that the mesh lacks or that was seen before, as a violation, or all axes seen. -/
def checkAxes (mesh : Mesh K) (seen : List Nat) : List Nat → Except Violation (List Nat)
  | [] => .ok seen
  | axis :: axes =>
    if (mesh.axisSize? axis).isNone then .error (.axisNotInMesh axis mesh.shape)
    else if seen.contains axis then .error (.axisReused axis)
    else checkAxes mesh (axis :: seen) axes

/-- Whether `size` cannot be cut into `shards` equal parts that are not empty. -/
def isUneven (size shards : Nat) : Bool := size < shards || size % shards != 0

/-- The first violation among the partitions, where the axes in `seen` are used by earlier ones. -/
def findViolation (t : TensorType) (mesh : Mesh K) (seen : List Nat) :
    List (Nat × List Nat) → Checked (Option Violation)
  | [] => .ok none
  | (dim, axes) :: rest =>
    match t.shape[dim]? with
    | none => .ok (some (.dimOutOfRange dim t.rank))
    | some size =>
      match checkAxes mesh seen axes with
      | .error v => .ok (some v)
      | .ok seen => do
        let shards ← mesh.shardCount axes
        if isUneven size shards then return some (.notDivisible dim size shards)
        findViolation t mesh seen rest

/-- The first rule that keeps the layout from fitting the tensor on the mesh. -/
def violation? (l : Layout) (t : TensorType) (mesh : Mesh K) : Checked (Option Violation) :=
  findViolation t mesh [] l.partitions

end Layout

end ShardPlan
