import ShardPlan.Layout.Violation
import ShardPlan.Proofs.Layout.UsedAxes
import ShardPlan.Proofs.Mesh.ShardVolume

/-! # Which layouts have no violation

`Fits` says what it means for a layout to fit a tensor on a mesh, in terms of its axes alone. It is what
the check looks for: `violation?` computes no violation for a layout exactly if the layout fits
(`violation?_eq_none_iff`). In particular no product overflows on the way. -/

namespace ShardPlan

namespace Layout

variable {K : Type}

/-- Axes cut a dimension of the tensor into equal shards that are not empty. -/
def CutsEvenly (t : TensorType) (mesh : Mesh K) (dim : Nat) (axes : List Nat) : Prop :=
  ∃ size, t.shape[dim]? = some size ∧ 0 < size ∧ mesh.shardVolume axes ∣ size

/-- **The layout fits the tensor on the mesh**: every split dimension belongs to the tensor and is cut
evenly, and every axis belongs to the mesh and is used once. -/
structure Fits (l : Layout) (t : TensorType) (mesh : Mesh K) : Prop where
  cuts : ∀ {dim : Nat}, l.axes dim ≠ [] → CutsEvenly t mesh dim (l.axes dim)
  axis_lt : ∀ axis ∈ l.usedAxes, axis < mesh.rank
  nodup : l.usedAxes.Nodup

variable {t : TensorType} {mesh : Mesh K}

theorem Fits.dim_lt {l : Layout} (h : l.Fits t mesh) {e : Nat × List Nat} (he : e ∈ l.partitions) :
    e.1 < t.rank := by
  obtain ⟨hdim, hne⟩ := mem_partitions.mp he
  obtain ⟨size, hsize, -⟩ := h.cuts (hdim ▸ hne)
  exact (List.getElem?_eq_some_iff.mp hsize).1

theorem isUneven_eq_false_iff {size shards : Nat} (h : 0 < shards) :
    isUneven size shards = false ↔ 0 < size ∧ shards ∣ size := by
  simp only [isUneven, Bool.or_eq_false_iff, decide_eq_false_iff_not, bne_eq_false_iff_eq,
    ← Nat.dvd_iff_mod_eq_zero]
  constructor
  · rintro ⟨hle, hdvd⟩; exact ⟨by omega, hdvd⟩
  · rintro ⟨hpos, hdvd⟩; exact ⟨Nat.not_lt.mpr (Nat.le_of_dvd hpos hdvd), hdvd⟩

/-- Axes pass the check if the mesh has them and none was seen before, among them or earlier. -/
theorem checkAxes_eq_ok_iff : ∀ {axes seen seen' : List Nat}, seen.Nodup →
    (checkAxes mesh seen axes = .ok seen' ↔
      seen' = axes.reverse ++ seen ∧ (∀ axis ∈ axes, axis < mesh.rank) ∧
        (axes.reverse ++ seen).Nodup)
  | [], seen, seen', hseen => by
    rw [checkAxes, Except.ok.injEq]
    simp [hseen, eq_comm]
  | axis :: axes, seen, seen', hseen => by
    have happ : (axis :: axes).reverse ++ seen = axes.reverse ++ axis :: seen := by simp
    rw [checkAxes, happ]
    split_ifs with hnone hmem
    · simp only [false_iff]
      rintro ⟨-, hlt, -⟩
      have := Mesh.axisSize?_isNone.mp hnone
      have := hlt axis (by simp)
      omega
    · simp only [false_iff]
      rintro ⟨-, -, hnodup⟩
      have := List.nodup_cons.mp (List.nodup_append.mp hnodup).2.1
      exact this.1 (by simpa using hmem)
    · have hcons : (axis :: seen).Nodup := List.nodup_cons.mpr ⟨by simpa using hmem, hseen⟩
      have hlt : axis < mesh.rank := by
        rw [Mesh.axisSize?_isNone] at hnone; omega
      rw [checkAxes_eq_ok_iff hcons]
      simp [hlt]

theorem findViolation_cons_eq_none_iff {dim : Nat} {axes seen : List Nat}
    {entries : List (Nat × List Nat)} (hseen : seen.Nodup) :
    findViolation t mesh seen ((dim, axes) :: entries) = .ok none ↔
      CutsEvenly t mesh dim axes ∧ (∀ axis ∈ axes, axis < mesh.rank) ∧
        (axes.reverse ++ seen).Nodup ∧
          findViolation t mesh (axes.reverse ++ seen) entries = .ok none := by
  rw [findViolation]
  cases hsize : t.shape[dim]? with
  | none => simp [CutsEvenly, hsize]
  | some size =>
    cases hcheck : checkAxes mesh seen axes with
    | error v =>
      simp only [Except.ok.injEq, reduceCtorEq, false_iff]
      rintro ⟨-, hlt, hnodup, -⟩
      rw [(checkAxes_eq_ok_iff hseen).mpr ⟨rfl, hlt, hnodup⟩] at hcheck
      exact nomatch hcheck
    | ok seen' =>
      obtain ⟨rfl, hlt, hnodup⟩ := (checkAxes_eq_ok_iff hseen).mp hcheck
      have haxes : axes.Nodup := List.nodup_reverse.mp (List.nodup_append.mp hnodup).1
      have hcut : CutsEvenly t mesh dim axes ↔ isUneven size (mesh.shardVolume axes) = false := by
        simp [isUneven_eq_false_iff (Mesh.shardVolume_pos axes), CutsEvenly, hsize]
      simp only [hcut, hnodup, Mesh.shardCount_eq_ok haxes hlt, bind, Except.bind]
      cases isUneven size (mesh.shardVolume axes) with
      | true => simp [pure, Except.pure]
      | false => simpa using fun _ => hlt

/-- The check of partitions, where the axes in `seen` were used by earlier ones. -/
theorem findViolation_eq_none_iff : ∀ {entries : List (Nat × List Nat)} {seen : List Nat},
    seen.Nodup → (findViolation t mesh seen entries = .ok none ↔
      (∀ e ∈ entries, CutsEvenly t mesh e.1 e.2 ∧ ∀ axis ∈ e.2, axis < mesh.rank) ∧
        ((entries.flatMap Prod.snd).reverse ++ seen).Nodup)
  | [], seen, hseen => by simp [findViolation, hseen]
  | (dim, axes) :: entries, seen, hseen => by
    have happ : (((dim, axes) :: entries).flatMap Prod.snd).reverse ++ seen =
        (entries.flatMap Prod.snd).reverse ++ (axes.reverse ++ seen) := by simp
    rw [findViolation_cons_eq_none_iff hseen, happ, List.forall_mem_cons]
    constructor
    · rintro ⟨hcut, hlt, hnodup, hrest⟩
      obtain ⟨hentries, hall⟩ := (findViolation_eq_none_iff hnodup).mp hrest
      exact ⟨⟨⟨hcut, hlt⟩, hentries⟩, hall⟩
    · rintro ⟨⟨⟨hcut, hlt⟩, hentries⟩, hall⟩
      have hnodup := (List.nodup_append.mp hall).2.1
      exact ⟨hcut, hlt, hnodup, (findViolation_eq_none_iff hnodup).mpr ⟨hentries, hall⟩⟩

/-- **A layout has no violation exactly if it fits.** -/
theorem violation?_eq_none_iff {l : Layout} :
    l.violation? t mesh = .ok none ↔ l.Fits t mesh := by
  rw [violation?, findViolation_eq_none_iff List.nodup_nil, List.append_nil, List.nodup_reverse]
  constructor
  · rintro ⟨hentries, hnodup⟩
    refine ⟨fun {dim} hne => ?_, fun axis haxis => ?_, hnodup⟩
    · exact (hentries (dim, l.axes dim) (mem_partitions.mpr ⟨rfl, hne⟩)).1
    · obtain ⟨e, he, haxis⟩ := List.mem_flatMap.mp haxis
      exact (hentries e he).2 axis haxis
  · rintro ⟨hcuts, hlt, hnodup⟩
    refine ⟨fun ⟨dim, axes⟩ he => ⟨?_, fun axis haxis => ?_⟩, hnodup⟩
    · obtain ⟨rfl, hne⟩ := mem_partitions.mp he
      exact hcuts hne
    · exact hlt axis (List.mem_flatMap.mpr ⟨_, he, haxis⟩)

end Layout

end ShardPlan
