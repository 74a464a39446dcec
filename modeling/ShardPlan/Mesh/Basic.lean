import ShardPlan.Arithmetic.Checked
import ShardPlan.Arithmetic.Scalar

/-! # Device meshes

A mesh arranges devices along named axes. Every axis has a size and a link, which prices the traffic
along it. The devices fill the mesh exactly: no axis is empty, and there are as many devices as the
product of the sizes, which fits a machine word. -/

namespace ShardPlan

/-- Latency and inverse bandwidth of the links along an axis. -/
structure Link (K : Type := Float) where
  /-- Price of a transfer of any size. -/
  alpha : K
  /-- Price of each byte. -/
  beta : K

/-- The link of an axis that says nothing else. -/
def Link.standard {K : Type} [Scalar K] : Link K := ⟨1.0, 1.0⟩

/-- One axis of a mesh. -/
structure Axis (K : Type := Float) where
  name : String
  /-- The number of devices along the axis. -/
  size : Nat
  link : Link K

/-- Devices arranged along named axes. -/
structure Mesh (K : Type := Float) where
  /-- The devices, with the last axis varying fastest. -/
  devices : List Nat
  /-- The axes, outermost first. -/
  axes : List (Axis K)
  size_pos : ∀ a ∈ axes, 0 < a.size
  names_nodup : (axes.map Axis.name).Nodup
  length_devices : devices.length = Size.volume (axes.map Axis.size)
  length_devices_lt : devices.length < wordLimit

namespace Mesh

variable {K : Type}

/-- The size of each axis. -/
def shape (mesh : Mesh K) : List Nat := mesh.axes.map Axis.size

/-- The number of axes. -/
def rank (mesh : Mesh K) : Nat := mesh.axes.length

/-- The size of an axis. -/
def axisSize? (mesh : Mesh K) (axis : Nat) : Option Nat := (mesh.axes[axis]?).map Axis.size

/-- The name of an axis. -/
def axisName? (mesh : Mesh K) (axis : Nat) : Option String := (mesh.axes[axis]?).map Axis.name

/-- The link of an axis. -/
def link? (mesh : Mesh K) (axis : Nat) : Option (Link K) := (mesh.axes[axis]?).map Axis.link

/-- The axis with a name. -/
def axisNamed? (mesh : Mesh K) (name : String) : Option Nat :=
  mesh.axes.findIdx? fun a => a.name == name

/-- The number of shards that splitting along the given axes makes. Axes that the mesh does not have
split nothing. -/
def shardCount (mesh : Mesh K) (axes : List Nat) : Checked Nat :=
  Size.product (axes.map fun axis => (mesh.axisSize? axis).getD 1)

end Mesh

end ShardPlan
