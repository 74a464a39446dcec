import ShardPlan.Proofs.Layout.Shards

/-! # The part of a tensor on one device

A layout that fits a tensor cuts every dimension into equal parts, so a device holds one part in each
(`Fits.part_mul_shardVolume`). The axes that a layout uses are those of the dimensions of the tensor in turn
(`Within.usedAxes_eq_flatMap`), so the shards of all dimensions together are the shards of the tensor, and
the volume of the part on one device times their number is the volume of the tensor
(`Fits.prod_localSizes`). The statement about the computations as they run is `cuts_exactly`. -/

namespace ShardPlan

namespace Mesh

variable {K : Type} {mesh : Mesh K}

theorem shardVolume_flatMap (f : Nat → List Nat) : ∀ dims : List Nat,
    mesh.shardVolume (dims.flatMap f) = (dims.map fun dim => mesh.shardVolume (f dim)).prod
  | [] => rfl
  | dim :: dims => by
    rw [List.flatMap_cons, shardVolume_append, shardVolume_flatMap f dims, List.map_cons, List.prod_cons]

end Mesh

namespace Layout

variable {K : Type} {l : Layout} {rank : Nat} {t : TensorType} {mesh : Mesh K}

/-! ### Axes dimension by dimension -/

theorem partitions_eq_filter (h : ∀ {dim}, l.axes dim ≠ [] → dim < rank) :
    l.partitions = ((List.range rank).map fun dim => (dim, l.axes dim)).filter fun e => e.2 ≠ [] := by
  have hdims : ((List.range rank).map fun dim => (dim, l.axes dim)).Pairwise
      fun e e' => Key.before e.1 e'.1 = true :=
    List.pairwise_map.mpr (List.pairwise_lt_range.imp fun {d d'} hlt => Nat.ble_eq_true_of_le hlt)
  refine SortedMap.entries_eq_of_mem_iff l.splits.ascending (hdims.filter _) fun ⟨dim, axes⟩ => ?_
  rw [mem_partitions, List.mem_filter, List.mem_map, decide_eq_true_iff]
  constructor
  · rintro ⟨rfl, hne⟩
    exact ⟨⟨dim, List.mem_range.mpr (h hne), rfl⟩, hne⟩
  · rintro ⟨⟨d, -, hd⟩, hne⟩
    cases hd
    exact ⟨rfl, hne⟩

theorem Within.usedAxes_eq_flatMap (h : l.Within rank mesh) :
    l.usedAxes = (List.range rank).flatMap l.axes := by
  rw [usedAxes, partitions_eq_filter h.dim_lt]
  induction List.range rank with
  | nil => rfl
  | cons dim dims ih =>
    rw [List.map_cons, List.filter_cons, List.flatMap_cons, ← ih]
    split_ifs with hne
    · rw [List.flatMap_cons]
    · have hnil : l.axes dim = [] := by simpa using hne
      rw [hnil, List.nil_append]

/-! ### The part on one device -/

/-- The sizes of the part of a tensor on one device. -/
def localSizes (l : Layout) (t : TensorType) (mesh : Mesh K) : List Nat :=
  t.shape.zipIdx.map fun e => e.1 / mesh.shardVolume (l.axes e.2)

theorem length_localSizes : (l.localSizes t mesh).length = t.rank := by
  rw [localSizes, List.length_map, List.length_zipIdx, TensorType.rank]

theorem getElem?_localSizes (dim : Nat) : (l.localSizes t mesh)[dim]? =
    (t.shape[dim]?).map fun size => size / mesh.shardVolume (l.axes dim) := by
  rw [localSizes, List.getElem?_map, List.getElem?_zipIdx, Option.map_map, Nat.zero_add]
  rfl

theorem Within.shardCount_eq_ok (h : l.Within rank mesh) (dim : Nat) :
    l.shardCount mesh dim = .ok (mesh.shardVolume (l.axes dim)) :=
  Mesh.shardCount_eq_ok (nodup_axes h.nodup dim) fun axis haxis =>
    h.axis_lt axis (mem_usedAxes.mpr ⟨dim, haxis⟩)

theorem Within.localShape_eq_ok (h : l.Within rank mesh) :
    l.localShape t mesh = .ok (l.localSizes t mesh) := by
  refine mapM_eq_ok fun e _ => ?_
  have hpos : 1 ≤ mesh.shardVolume (l.axes e.2) := Mesh.shardVolume_pos _
  rw [h.shardCount_eq_ok]
  change (Except.ok (e.1 / max (mesh.shardVolume (l.axes e.2)) 1) : Checked Nat) = _
  rw [Nat.max_eq_left hpos]

section Fits

variable (h : l.Fits t mesh)
include h

/-- **The parts of a dimension make up its size.** -/
theorem Fits.part_mul_shardVolume {dim size : Nat} (hsize : t.shape[dim]? = some size) :
    size / mesh.shardVolume (l.axes dim) * mesh.shardVolume (l.axes dim) = size := by
  refine Nat.div_mul_cancel ?_
  by_cases hdim : l.axes dim = []
  · rw [hdim]
    exact Nat.one_dvd size
  · obtain ⟨size', hsize', -, hdvd⟩ := h.cuts hdim
    cases hsize.symm.trans hsize'
    exact hdvd

theorem Fits.part_pos {dim size : Nat} (hsize : t.shape[dim]? = some size) (hdim : l.axes dim ≠ []) :
    1 ≤ size / mesh.shardVolume (l.axes dim) := by
  obtain ⟨size', hsize', hpos, hdvd⟩ := h.cuts hdim
  cases hsize.symm.trans hsize'
  exact Nat.div_pos (Nat.le_of_dvd hpos hdvd) (Mesh.shardVolume_pos _)

/-- **The volume of the part on one device** times the number of shards is that of the tensor. -/
theorem Fits.prod_localSizes :
    (l.localSizes t mesh).prod * mesh.shardVolume l.usedAxes = t.shape.prod := by
  have hdims : List.range t.rank = t.shape.zipIdx.map Prod.snd := by
    rw [List.zipIdx_map_snd, List.range_eq_range', TensorType.rank]
  have hsizes : t.shape = t.shape.zipIdx.map Prod.fst := (List.zipIdx_map_fst 0 t.shape).symm
  rw [h.within.usedAxes_eq_flatMap, Mesh.shardVolume_flatMap, hdims, List.map_map, localSizes,
    ← List.prod_map_mul]
  nth_rewrite 2 [hsizes]
  refine congrArg List.prod (List.map_congr_left fun e he => ?_)
  exact h.part_mul_shardVolume (List.mem_zipIdx_iff_getElem?.mp he)

end Fits

theorem localSizes_le : List.Forall₂ (· ≤ ·) (l.localSizes t mesh) t.shape := by
  have hsizes : t.shape = t.shape.zipIdx.map Prod.fst := (List.zipIdx_map_fst 0 t.shape).symm
  rw [localSizes]
  nth_rewrite 2 [hsizes]
  rw [List.forall₂_map_left_iff, List.forall₂_map_right_iff, List.forall₂_same]
  exact fun e _ => Nat.div_le_self e.1 _

/-- **The bytes of the part on one device** are computed if those of the tensor are, and are an equal share
of them. -/
theorem Fits.byteSize_localSizes (h : l.Fits t mesh) {bytes : Nat} (hbytes : t.byteSize = .ok bytes) :
    ∃ part, (TensorType.mk (l.localSizes t mesh) t.element).byteSize = .ok part ∧
      part * mesh.shardVolume l.usedAxes = bytes := by
  obtain ⟨count, hcount, hbytes⟩ := bind_eq_ok_iff.mp hbytes
  obtain ⟨parts, hparts⟩ := Size.product_hasValue_of_le localSizes_le ⟨count, hcount⟩
  have hvolume : parts * mesh.shardVolume l.usedAxes = count := by
    rw [Size.volume_of_product hparts, Size.volume_of_product hcount, Size.volume_eq_prod,
      Size.volume_eq_prod, h.prod_localSizes]
  obtain ⟨hlt, rfl⟩ := Size.mul_eq_ok_iff.mp hbytes
  have hle : parts ≤ count := by
    rw [← hvolume]
    exact Nat.le_mul_of_pos_right parts (Mesh.shardVolume_pos _)
  have hmul : parts * t.element.size ≤ count * t.element.size := Nat.mul_le_mul_right _ hle
  refine ⟨parts * t.element.size, ?_, by rw [← hvolume, Nat.mul_right_comm]⟩
  exact bind_eq_ok_iff.mpr ⟨parts, hparts, Size.mul_eq_ok (lt_of_le_of_lt hmul hlt)⟩

/-- **A layout that fits cuts the tensor exactly.** The number of shards of each dimension, the number of all
shards and the shape on one device are computed. In every dimension the part on one device times the number
of parts is the size, and a part of a split dimension is not empty; the number of shards is at least one and
divides the number of devices; and the volume on one device times the number of shards is the volume of the
tensor. So the bytes of the tensor, if they can be counted, divided by the number of shards are exactly the
bytes on one device, and it is these two numbers that costs divide. -/
theorem cuts_exactly [Scalar K] {l : Layout} {t : TensorType} {mesh : Mesh K}
    (h : l.violation? t mesh = .ok none) :
    ∃ (counts : Nat → Nat) (sizes : List Nat) (total : Nat),
      (∀ dim, l.shardCount mesh dim = .ok (counts dim)) ∧
      l.localShape t mesh = .ok sizes ∧
      l.totalShards mesh = .ok total ∧
      sizes.length = t.rank ∧
      (∀ dim size part, t.shape[dim]? = some size → sizes[dim]? = some part →
        part * counts dim = size ∧ (l.axes dim ≠ [] → 1 ≤ part)) ∧
      1 ≤ total ∧ total ∣ mesh.devices.length ∧
      sizes.prod * total = t.shape.prod ∧
      ∀ bytes, t.byteSize = .ok bytes → total ∣ bytes ∧
        (TensorType.mk sizes t.element).byteSize = .ok (bytes / total) ∧
        l.localBytes t mesh = .ok (Scalar.ofSize bytes / Scalar.ofSize total) := by
  rw [violation?_eq_none_iff] at h
  have hpos : 0 < mesh.shardVolume l.usedAxes := Mesh.shardVolume_pos _
  refine ⟨fun dim => mesh.shardVolume (l.axes dim), l.localSizes t mesh, mesh.shardVolume l.usedAxes,
    h.within.shardCount_eq_ok, h.within.localShape_eq_ok, h.within.totalShards_eq_ok, length_localSizes,
    fun dim size part hsize hpart => ?_, hpos, Mesh.shardVolume_dvd_devices h.nodup h.axis_lt,
    h.prod_localSizes, fun bytes hbytes => ?_⟩
  · rw [getElem?_localSizes, hsize] at hpart
    cases hpart
    exact ⟨h.part_mul_shardVolume hsize, h.part_pos hsize⟩
  · obtain ⟨part, hpart, rfl⟩ := h.byteSize_localSizes hbytes
    rw [Nat.mul_div_cancel part hpos]
    exact ⟨Nat.dvd_mul_left _ part, hpart, h.within.localBytes_eq_ok hbytes⟩

end Layout

/-- Six devices along three axes, the last of which has a single one. -/
def Mesh.slab : Mesh where
  devices := [0, 1, 2, 3, 4, 5]
  axes := [⟨"x", 2, .standard⟩, ⟨"y", 3, .standard⟩, ⟨"z", 1, .standard⟩]
  size_pos := by simp
  names_nodup := by simp
  length_devices := rfl
  length_devices_lt := by decide

/-- A layout that splits one dimension along two axes and another along the axis of a single device. -/
def Layout.lengthwise : Layout := .ofPairs [(0, [1, 0]), (2, [2])]

/-- Six shards of two rows each, of a tensor with a dimension that is not split between two that are. -/
theorem Layout.cuts_exactly_of_lengthwise :
    Layout.lengthwise.violation? ⟨[12, 5, 3], .f16⟩ .slab = .ok none ∧
      Layout.lengthwise.localShape ⟨[12, 5, 3], .f16⟩ .slab = .ok [2, 5, 3] ∧
      Layout.lengthwise.totalShards .slab = .ok 6 ∧
      6 ∣ Mesh.slab.devices.length ∧ [2, 5, 3].prod * 6 = [12, 5, 3].prod ∧
      TensorType.byteSize ⟨[12, 5, 3], .f16⟩ = .ok 360 ∧
      TensorType.byteSize ⟨[2, 5, 3], .f16⟩ = .ok (360 / 6) := by
  have hfit : Layout.lengthwise.violation? ⟨[12, 5, 3], .f16⟩ .slab = .ok none := rfl
  have hbytes : TensorType.byteSize ⟨[12, 5, 3], .f16⟩ = .ok 360 := rfl
  have hsizes : Layout.lengthwise.localShape ⟨[12, 5, 3], .f16⟩ .slab = .ok [2, 5, 3] := rfl
  have htotal : Layout.lengthwise.totalShards .slab = .ok 6 := rfl
  obtain ⟨counts, sizes, total, -, hsizes', htotal', -, -, -, hdvd, hprod, hshare⟩ := cuts_exactly hfit
  cases hsizes.symm.trans hsizes'
  cases htotal.symm.trans htotal'
  exact ⟨hfit, hsizes, htotal, hdvd, hprod, hbytes, (hshare 360 hbytes).2.1⟩

end ShardPlan
