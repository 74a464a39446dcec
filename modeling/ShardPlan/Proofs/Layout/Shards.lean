import ShardPlan.Layout.Shards
import ShardPlan.Proofs.Layout.Within

/-! # Shards of a layout

A layout that uses every axis of the mesh at most once makes as many shards as the sizes of its axes multiply
to, and neither this number nor what a device holds of a tensor is beyond a machine word. The layout need
not fit the tensor. -/

namespace ShardPlan

namespace Layout

variable {K : Type} {l : Layout} {rank : Nat} {t : TensorType} {mesh : Mesh K}

theorem volume_partitions (l : Layout) (mesh : Mesh K) :
    Size.volume (l.partitions.map fun e => mesh.shardVolume e.2) = mesh.shardVolume l.usedAxes := by
  unfold usedAxes
  induction l.partitions with
  | nil => rfl
  | cons e entries ih =>
    rw [List.map_cons, Size.volume, ih, List.flatMap_cons, Mesh.shardVolume_append]

/-- **The number of shards is computed** and is the product of the sizes of all axes used. -/
theorem Within.totalShards_eq_ok (h : l.Within rank mesh) :
    l.totalShards mesh = .ok (mesh.shardVolume l.usedAxes) := by
  have hcounts : l.partitions.mapM (fun e => mesh.shardCount e.2) =
      .ok (l.partitions.map fun e => mesh.shardVolume e.2) := by
    refine mapM_eq_ok fun ⟨dim, axes⟩ he => ?_
    obtain ⟨rfl, -⟩ := mem_partitions.mp he
    refine Mesh.shardCount_eq_ok (nodup_axes h.nodup dim) fun axis haxis => ?_
    exact h.axis_lt axis (mem_usedAxes.mpr ⟨dim, haxis⟩)
  have hpos : ∀ n ∈ l.partitions.map (fun e => mesh.shardVolume e.2), 0 < n := by
    intro n hn
    obtain ⟨e, -, rfl⟩ := List.mem_map.mp hn
    exact Mesh.shardVolume_pos e.2
  have hle := Mesh.shardVolume_le_devices h.nodup h.axis_lt
  have hlt := mesh.length_devices_lt
  rw [totalShards, hcounts]
  change Size.product _ = _
  rw [Size.product_eq_ok hpos (by rw [volume_partitions]; omega), volume_partitions]

/-- The bytes that one device holds of a tensor of the given size, as a number of any scalar type. -/
def heldBytes [Scalar K] (l : Layout) (mesh : Mesh K) (bytes : Nat) : K :=
  Scalar.ofSize bytes / Scalar.ofSize (mesh.shardVolume l.usedAxes)

theorem Within.localBytes_eq_ok [Scalar K] (h : l.Within rank mesh) {bytes : Nat}
    (hbytes : t.byteSize = .ok bytes) : l.localBytes t mesh = .ok (l.heldBytes mesh bytes) := by
  rw [localBytes, hbytes, h.totalShards_eq_ok]
  rfl

theorem heldBytes_perm [Scalar K] {l l' : Layout} (h : l.usedAxes.Perm l'.usedAxes) (mesh : Mesh K)
    (bytes : Nat) : l.heldBytes mesh bytes = l'.heldBytes mesh bytes := by
  rw [heldBytes, heldBytes, Mesh.shardVolume_perm h]

end Layout

end ShardPlan
