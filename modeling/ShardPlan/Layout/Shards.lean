import ShardPlan.Layout.Basic
import ShardPlan.Mesh.Basic
import ShardPlan.Tensor

/-! # Shards of a tensor

How many shards a layout makes on a mesh, and what a single device holds of a tensor. -/

namespace ShardPlan

namespace Layout

variable {K : Type}

/-- The number of shards that a dimension is split into. -/
def shardCount (l : Layout) (mesh : Mesh K) (dim : Nat) : Checked Nat :=
  mesh.shardCount (l.axes dim)

/-- The number of different shards of the whole tensor. -/
def totalShards (l : Layout) (mesh : Mesh K) : Checked Nat := do
  let counts ← l.partitions.mapM fun e => mesh.shardCount e.2
  Size.product counts

/-- The shape of the shard on one device. -/
def localShape (l : Layout) (t : TensorType) (mesh : Mesh K) : Checked (List Nat) :=
  t.shape.zipIdx.mapM fun e => do
    let count ← l.shardCount mesh e.2
    return e.1 / max count 1

/-- The bytes that one device holds of the tensor. -/
def localBytes [Scalar K] (l : Layout) (t : TensorType) (mesh : Mesh K) : Checked K := do
  let bytes ← t.byteSize
  let shards ← l.totalShards mesh
  return Scalar.ofSize bytes / Scalar.ofSize shards

end Layout

end ShardPlan
