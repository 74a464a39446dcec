import ShardPlan.Mesh.Basic

/-! # Prices of collectives

A collective along an axis pays the latency of the link, the inverse bandwidth for every byte that a
device sends, and a small overhead that tells the patterns apart. Along an axis of one device it is
free. Every formula is evaluated from left to right, one operation at a time. -/

namespace ShardPlan

/-- A pattern of communication between the devices along one axis. -/
inductive Collective where
  /-- Every device gets the shards of all. -/
  | allGather
  /-- Every device gets the sum of the tensors of all. -/
  | allReduce
  /-- Every device gets its shard of the sum of the tensors of all. -/
  | reduceScatter
  /-- Every device sends each of the others its part. -/
  | allToAll
deriving DecidableEq, Repr

namespace Collective

variable {K : Type} [Scalar K]

/-- The bytes that a device sends when `n` devices handle `bytes`. All parts of an all-to-all share
the links, which is what its last factor stands for. -/
def volume (c : Collective) (n bytes : K) : K :=
  match c with
  | allGather | reduceScatter => (n - 1.0) / n * bytes
  | allReduce => 2.0 * (n - 1.0) / n * bytes
  | allToAll => (n - 1.0) / n / n * bytes * (n / 2.0)

/-- What the pattern costs beside the traffic. -/
def overhead : Collective → K
  | allGather => 0.1
  | allReduce => 0.01
  | reduceScatter | allToAll => 0.001

end Collective

namespace Mesh

variable {K : Type} [Scalar K]

/-- The price of a collective that handles `bytes` along an axis. -/
def collectivePrice (mesh : Mesh K) (c : Collective) (bytes : K) (axis : Nat) : K :=
  let size := (mesh.axisSize? axis).getD 1
  if size ≤ 1 then 0.0
  else
    let link := (mesh.link? axis).getD .standard
    link.alpha + link.beta * c.volume (Scalar.ofSize size) bytes + c.overhead

/-- The price of splitting a local tensor along an axis, which needs no communication. -/
def splitPrice (mesh : Mesh K) (axis : Nat) : K :=
  if 1 < (mesh.axisSize? axis).getD 1 then 100.0 else 0.0

end Mesh

end ShardPlan
