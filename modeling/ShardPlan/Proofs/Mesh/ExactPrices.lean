import Mathlib.Data.Rat.Cast.Order
import Mathlib.Tactic.Linarith
import Mathlib.Tactic.NormNum
import Mathlib.Tactic.Positivity
import ShardPlan.Mesh.Collective
import ShardPlan.Proofs.Mesh.ShardVolume

/-! # Prices of collectives in exact arithmetic

Over the rationals nothing is rounded. If no link has a negative price, everything is free along an axis of one
device (`collectivePrice_of_single`, `splitPrice_of_single`), and nothing is along a longer one
(`collectivePrice_pos`, `splitPrice_pos`), even if the link is free and there are no bytes: the overhead of a
collective is positive. -/

namespace ShardPlan

/-- Exact arithmetic, where no operation rounds. -/
instance : Scalar ℚ where
  ofSize n := n

namespace Collective

theorem overhead_pos (c : Collective) : 0 < (c.overhead : ℚ) := by
  cases c <;> norm_num [overhead]

theorem volume_nonneg (c : Collective) {n bytes : ℚ} (hn : 1 ≤ n) (hbytes : 0 ≤ bytes) :
    0 ≤ c.volume n bytes := by
  have hpos : 0 ≤ n := by linarith
  have hothers : 0 ≤ n - 1.0 := by norm_num [hn]
  have htwo : (2.0 : ℚ) = 2 := by norm_num
  cases c with
  | allGather | reduceScatter => exact mul_nonneg (div_nonneg hothers hpos) hbytes
  | allReduce =>
    rw [volume, htwo]
    positivity
  | allToAll =>
    rw [volume, htwo]
    positivity

end Collective

/-- Neither price of a link is negative. -/
structure Link.IsNonneg (link : Link ℚ) : Prop where
  alpha : 0 ≤ link.alpha
  beta : 0 ≤ link.beta

theorem Link.standard_isNonneg : (Link.standard : Link ℚ).IsNonneg :=
  ⟨by norm_num [standard], by norm_num [standard]⟩

namespace Mesh

variable {mesh : Mesh ℚ} {axis : Nat}

/-- **No link of the mesh has a negative price.** -/
def IsNonneg (mesh : Mesh ℚ) : Prop := ∀ a ∈ mesh.axes, a.link.IsNonneg

theorem IsNonneg.link (h : mesh.IsNonneg) (axis : Nat) : ((mesh.link? axis).getD .standard).IsNonneg := by
  rw [link?]
  cases haxis : mesh.axes[axis]? with
  | none => exact Link.standard_isNonneg
  | some a => exact h a (List.mem_of_getElem? haxis)

/-! ### Axes of one device -/

section Single

variable (hsize : mesh.sizeAlong axis = 1)
include hsize

theorem collectivePrice_of_single (c : Collective) (bytes : ℚ) : mesh.collectivePrice c bytes axis = 0 := by
  rw [sizeAlong] at hsize
  norm_num [collectivePrice, hsize]

theorem splitPrice_of_single : mesh.splitPrice axis = (0 : ℚ) := by
  rw [sizeAlong] at hsize
  norm_num [splitPrice, hsize]

end Single

/-! ### Longer axes -/

section Long

variable (hsize : 1 < mesh.sizeAlong axis)
include hsize

/-- **A collective between several devices costs something.** -/
theorem collectivePrice_pos (h : mesh.IsNonneg) (c : Collective) {bytes : ℚ} (hbytes : 0 ≤ bytes) :
    0 < mesh.collectivePrice c bytes axis := by
  obtain ⟨halpha, hbeta⟩ := h.link axis
  have hcast : (1 : ℚ) ≤ Scalar.ofSize (mesh.sizeAlong axis) := Nat.one_le_cast.mpr hsize.le
  have htraffic := mul_nonneg hbeta (c.volume_nonneg hcast hbytes)
  have hoverhead := c.overhead_pos
  rw [sizeAlong] at hsize htraffic
  rw [collectivePrice, if_neg (Nat.not_le.mpr hsize)]
  linarith

theorem splitPrice_pos : 0 < (mesh.splitPrice axis : ℚ) := by
  rw [sizeAlong] at hsize
  norm_num [splitPrice, hsize]

end Long

end Mesh

end ShardPlan
