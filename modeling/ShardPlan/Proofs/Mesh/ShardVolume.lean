import Mathlib.Algebra.BigOperators.Group.List.Lemmas
import Mathlib.Data.List.Perm.Subperm
import ShardPlan.Mesh.Basic
import ShardPlan.Proofs.Arithmetic.Checked

/-! # How many shards axes make

`shardVolume` is the number of shards along a list of axes, as a number without bound. Axes that the
mesh has, each taken once, make a number of shards that divides the number of devices
(`shardVolume_dvd_devices`), so `shardCount` computes it without a fault (`shardCount_eq_ok`). -/

namespace ShardPlan

namespace Mesh

variable {K : Type} (mesh : Mesh K)

/-- The number of devices along an axis, one if the mesh does not have it. -/
def sizeAlong (axis : Nat) : Nat := (mesh.axisSize? axis).getD 1

/-- The number of shards that splitting along the given axes makes, whether it fits or not. -/
def shardVolume (axes : List Nat) : Nat := Size.volume (axes.map mesh.sizeAlong)

variable {mesh}

theorem axisSize?_isNone {axis : Nat} : (mesh.axisSize? axis).isNone = true ↔ mesh.rank ≤ axis := by
  simp [axisSize?, rank]

theorem sizeAlong_pos (axis : Nat) : 0 < mesh.sizeAlong axis := by
  unfold sizeAlong axisSize?
  cases h : mesh.axes[axis]? with
  | none => simp
  | some a => exact mesh.size_pos a (List.mem_of_getElem? h)

theorem shardVolume_pos (axes : List Nat) : 0 < mesh.shardVolume axes := by
  refine Size.volume_pos fun n hn => ?_
  obtain ⟨axis, -, rfl⟩ := List.mem_map.mp hn
  exact sizeAlong_pos axis

theorem shardVolume_append (axes axes' : List Nat) :
    mesh.shardVolume (axes ++ axes') = mesh.shardVolume axes * mesh.shardVolume axes' := by
  simp [shardVolume, Size.volume_eq_prod]

theorem shardVolume_perm {axes axes' : List Nat} (h : axes.Perm axes') :
    mesh.shardVolume axes = mesh.shardVolume axes' := by
  simp only [shardVolume, Size.volume_eq_prod]
  exact (h.map _).prod_eq

theorem shardVolume_dvd_of_isPrefix {axes axes' : List Nat} (h : axes <+: axes') :
    mesh.shardVolume axes ∣ mesh.shardVolume axes' := by
  obtain ⟨rest, rfl⟩ := h
  rw [shardVolume_append]
  exact Nat.dvd_mul_right _ _

theorem map_sizeAlong_range : (List.range mesh.rank).map mesh.sizeAlong = mesh.shape := by
  refine List.ext_getElem (by simp [rank, shape]) fun i h1 h2 => ?_
  have hi : i < mesh.axes.length := by simpa [shape] using h2
  simp [sizeAlong, axisSize?, shape, hi]

/-- **Axes that the mesh has, each taken once**, make a number of shards that divides the number of
devices. -/
theorem shardVolume_dvd_devices {axes : List Nat} (hnodup : axes.Nodup)
    (hlt : ∀ axis ∈ axes, axis < mesh.rank) : mesh.shardVolume axes ∣ mesh.devices.length := by
  have hsub : axes.Subperm (List.range mesh.rank) :=
    hnodup.subperm fun axis h => List.mem_range.mpr (hlt axis h)
  obtain ⟨axes', hperm, hsub⟩ := hsub
  have hshape : mesh.shape = mesh.axes.map Axis.size := rfl
  rw [← shardVolume_perm hperm, mesh.length_devices, ← hshape, ← map_sizeAlong_range, shardVolume,
    Size.volume_eq_prod, Size.volume_eq_prod]
  exact (hsub.map mesh.sizeAlong).prod_dvd_prod

theorem shardVolume_le_devices {axes : List Nat} (hnodup : axes.Nodup)
    (hlt : ∀ axis ∈ axes, axis < mesh.rank) : mesh.shardVolume axes ≤ mesh.devices.length := by
  refine Nat.le_of_dvd ?_ (shardVolume_dvd_devices hnodup hlt)
  rw [mesh.length_devices]
  refine Size.volume_pos fun n hn => ?_
  obtain ⟨a, ha, rfl⟩ := List.mem_map.mp hn
  exact mesh.size_pos a ha

theorem shardCount_eq_ok {axes : List Nat} (hnodup : axes.Nodup)
    (hlt : ∀ axis ∈ axes, axis < mesh.rank) :
    mesh.shardCount axes = .ok (mesh.shardVolume axes) := by
  refine Size.product_eq_ok (fun n hn => ?_) ?_
  · obtain ⟨axis, -, rfl⟩ := List.mem_map.mp hn
    exact sizeAlong_pos axis
  · exact lt_of_le_of_lt (shardVolume_le_devices hnodup hlt) mesh.length_devices_lt

end Mesh

end ShardPlan
