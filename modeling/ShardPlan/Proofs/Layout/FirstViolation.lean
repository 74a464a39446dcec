import ShardPlan.Proofs.Layout.Within

/-! # The violation that is reported

The check of a layout decides whether the layout fits, and what it reports otherwise is true: there is a
split dimension at which the violation occurs (`Violation.OccursAt`), and what the layout says of the smaller
dimensions (`Layout.below`) fits. The check goes through the dimensions once and keeps the axes seen so far,
so each step either reports a violation of its own dimension or goes on with further axes seen
(`findViolation_cons_eq_some`); the whole check is by induction on the dimensions (`findViolation_eq_some`). -/

namespace ShardPlan

variable {K : Type} {t : TensorType} {mesh : Mesh K}

/-- **A violation occurs at a dimension** that is split along `axes`, where the axes in `earlier` split other
dimensions: what it reports is true. -/
def Violation.OccursAt (t : TensorType) (mesh : Mesh K) (earlier : List Nat) (dim : Nat)
    (axes : List Nat) : Violation → Prop
  | .dimOutOfRange d rank => d = dim ∧ rank = t.rank ∧ t.rank ≤ dim
  | .axisNotInMesh axis shape => axis ∈ axes ∧ mesh.rank ≤ axis ∧ shape = mesh.shape
  | .axisReused axis => axis ∈ axes ∧ (axis ∈ earlier ∨ 2 ≤ axes.count axis)
  | .notDivisible d size shards =>
    d = dim ∧ t.shape[dim]? = some size ∧ shards = mesh.shardVolume axes ∧ ¬ (size ≠ 0 ∧ shards ∣ size)

namespace Layout

variable {l : Layout} {v : Violation} {dim : Nat} {axes seen : List Nat}

/-! ### Smaller dimensions -/

/-- What the layout says of the dimensions below `dim`. -/
def below (l : Layout) (dim : Nat) : Layout := ofPairs (l.partitions.filter fun e => e.1 < dim)

theorem axes_below (l : Layout) (dim d : Nat) :
    (l.below dim).axes d = if d < dim then l.axes d else [] := by
  refine axes_ofPairs_eq (fun e he heq => ?_) fun hne => ?_
  · obtain ⟨hmem, hlt⟩ := List.mem_filter.mp he
    have hlt : d < dim := by
      rw [← heq]
      simpa using hlt
    rw [if_pos hlt, ← heq]
    exact (mem_partitions.mp hmem).1.symm
  · split_ifs at hne ⊢ with hlt
    · exact List.mem_filter.mpr ⟨mem_partitions.mpr ⟨rfl, hne⟩, by simpa using hlt⟩
    · exact absurd rfl hne

theorem partitions_below (l : Layout) (dim : Nat) :
    (l.below dim).partitions = l.partitions.filter fun e => e.1 < dim := by
  refine SortedMap.entries_eq_of_mem_iff (l.below dim).splits.ascending
    (l.splits.ascending.filter _) fun ⟨d, axes⟩ => ?_
  rw [mem_partitions, List.mem_filter, mem_partitions, axes_below]
  by_cases hlt : d < dim
  · simp [hlt]
  · simp [hlt, eq_comm]

theorem partitions_below_of_split {past rest : List (Nat × List Nat)}
    (h : l.partitions = past ++ (dim, axes) :: rest) : (l.below dim).partitions = past := by
  have hascending : l.partitions.Pairwise fun e e' => e.1 < e'.1 :=
    l.splits.ascending.imp fun {e e'} hbefore => Nat.le_of_ble_eq_true hbefore
  rw [h] at hascending
  obtain ⟨-, hrest, hpast⟩ := List.pairwise_append.mp hascending
  have hlater := (List.pairwise_cons.mp hrest).1
  have hkeep : past.filter (fun e => e.1 < dim) = past := by
    refine List.filter_eq_self.mpr fun e he => ?_
    simpa using hpast e he _ List.mem_cons_self
  have hdrop : rest.filter (fun e => e.1 < dim) = [] := by
    refine List.filter_eq_nil_iff.mpr fun e he => ?_
    have := hlater e he
    simp
    omega
  rw [partitions_below, h, List.filter_append, hkeep, List.filter_cons, hdrop]
  simp

/-! ### What the check reports -/

theorem checkAxes_eq_error : ∀ {axes seen : List Nat}, checkAxes mesh seen axes = .error v →
    ∃ axis ∈ axes, (v = .axisNotInMesh axis mesh.shape ∧ mesh.rank ≤ axis) ∨
      (v = .axisReused axis ∧ (axis ∈ seen ∨ 2 ≤ axes.count axis))
  | [], _, h => nomatch h
  | axis :: axes, seen, h => by
    rw [checkAxes] at h
    split_ifs at h with hnone hmem
    · cases h
      exact ⟨axis, List.mem_cons_self, .inl ⟨rfl, Mesh.axisSize?_isNone.mp hnone⟩⟩
    · cases h
      exact ⟨axis, List.mem_cons_self, .inr ⟨rfl, .inl (by simpa using hmem)⟩⟩
    · obtain ⟨other, hother, hv⟩ := checkAxes_eq_error h
      have hcount : axes.count other ≤ (axis :: axes).count other := List.count_le_count_cons
      refine ⟨other, List.mem_cons_of_mem _ hother, ?_⟩
      rcases hv with hv | ⟨hv, hused⟩
      · exact .inl hv
      refine .inr ⟨hv, ?_⟩
      rcases hused with hused | hused
      · rcases List.mem_cons.mp hused with rfl | hused
        · have hpos : 0 < axes.count other := List.count_pos_iff.mpr hother
          rw [List.count_cons_self]
          exact .inr (by omega)
        · exact .inl hused
      · exact .inr (by omega)

theorem findViolation_cons_eq_some {entries : List (Nat × List Nat)} (hseen : seen.Nodup)
    (h : findViolation t mesh seen ((dim, axes) :: entries) = .ok (some v)) :
    v.OccursAt t mesh seen dim axes ∨
      (CutsEvenly t mesh dim axes ∧ (∀ axis ∈ axes, axis < mesh.rank) ∧ (axes.reverse ++ seen).Nodup ∧
        findViolation t mesh (axes.reverse ++ seen) entries = .ok (some v)) := by
  rw [findViolation] at h
  cases hsize : t.shape[dim]? with
  | none =>
    rw [hsize] at h
    cases h
    exact .inl ⟨rfl, rfl, List.getElem?_eq_none_iff.mp hsize⟩
  | some size =>
    cases hcheck : checkAxes mesh seen axes with
    | error v' =>
      rw [hsize, hcheck] at h
      cases h
      obtain ⟨axis, haxis, ⟨rfl, hrank⟩ | ⟨rfl, hused⟩⟩ := checkAxes_eq_error hcheck
      · exact .inl ⟨haxis, hrank, rfl⟩
      · exact .inl ⟨haxis, hused⟩
    | ok seen' =>
      obtain ⟨rfl, hlt, hnodup⟩ := (checkAxes_eq_ok_iff hseen).mp hcheck
      have haxes : axes.Nodup := List.nodup_reverse.mp (List.nodup_append.mp hnodup).1
      have hpos : 0 < mesh.shardVolume axes := Mesh.shardVolume_pos axes
      rw [hsize] at h
      simp only [hcheck, Mesh.shardCount_eq_ok haxes hlt, bind, Except.bind] at h
      cases huneven : isUneven size (mesh.shardVolume axes) with
      | true =>
        rw [huneven] at h
        cases h
        refine .inl ⟨rfl, hsize, rfl, fun hcuts => ?_⟩
        rw [(isUneven_eq_false_iff hpos).mpr ⟨Nat.pos_of_ne_zero hcuts.1, hcuts.2⟩] at huneven
        exact Bool.false_ne_true huneven
      | false =>
        rw [huneven] at h
        obtain ⟨hsizepos, hdvd⟩ := (isUneven_eq_false_iff hpos).mp huneven
        exact .inr ⟨⟨size, hsize, hsizepos, hdvd⟩, hlt, hnodup, h⟩

/-- **The check** reports a violation of the first dimension that has one. -/
theorem findViolation_eq_some : ∀ {entries : List (Nat × List Nat)} {seen : List Nat}, seen.Nodup →
    findViolation t mesh seen entries = .ok (some v) →
      ∃ past dim axes rest, entries = past ++ (dim, axes) :: rest ∧
        findViolation t mesh seen past = .ok none ∧
        v.OccursAt t mesh ((past.flatMap Prod.snd).reverse ++ seen) dim axes
  | [], _, _, h => nomatch h
  | (dim, axes) :: entries, seen, hseen, h => by
    rcases findViolation_cons_eq_some hseen h with hv | ⟨hcut, hlt, hnodup, h⟩
    · exact ⟨[], dim, axes, entries, rfl, rfl, hv⟩
    · obtain ⟨past, dim', axes', rest, rfl, hpast, hv⟩ := findViolation_eq_some hnodup h
      have happ : (((dim, axes) :: past).flatMap Prod.snd).reverse ++ seen =
          (past.flatMap Prod.snd).reverse ++ (axes.reverse ++ seen) := by simp
      refine ⟨(dim, axes) :: past, dim', axes', rest, rfl, ?_, by rwa [happ]⟩
      exact (findViolation_cons_eq_none_iff hseen).mpr ⟨hcut, hlt, hnodup, hpast⟩

/-- **A reported violation occurs at a split dimension**, and the layout fits below it. -/
theorem exists_occursAt_of_violation? (h : l.violation? t mesh = .ok (some v)) :
    ∃ dim, l.axes dim ≠ [] ∧ v.OccursAt t mesh (l.below dim).usedAxes dim (l.axes dim) ∧
      (l.below dim).violation? t mesh = .ok none := by
  obtain ⟨past, dim, axes, rest, hsplit, hpast, hv⟩ := findViolation_eq_some List.nodup_nil h
  have hmem : (dim, axes) ∈ l.partitions := by
    rw [hsplit]
    exact List.mem_append_right _ List.mem_cons_self
  obtain ⟨rfl, hne⟩ := mem_partitions.mp hmem
  have hbelow := partitions_below_of_split hsplit
  refine ⟨dim, hne, ?_, by rw [violation?, hbelow]; exact hpast⟩
  rw [usedAxes, hbelow]
  cases v with
  | axisReused axis => simpa [Violation.OccursAt] using hv
  | dimOutOfRange d rank => exact hv
  | axisNotInMesh axis shape => exact hv
  | notDivisible d size shards => exact hv

/-! ### The check decides which layouts can be realized -/

theorem shardCount_ne_zero {shards : Nat} (h : mesh.shardCount axes = .ok shards) : shards ≠ 0 := by
  have hvolume : shards = mesh.shardVolume axes := Size.volume_of_product h
  have hpos : 0 < mesh.shardVolume axes := Mesh.shardVolume_pos axes
  omega

theorem fits_iff : l.Fits t mesh ↔
    (∀ dim, l.axes dim ≠ [] → dim < t.rank) ∧
    (∀ dim, ∀ axis ∈ l.axes dim, axis < mesh.rank) ∧
    (∀ dim, (l.axes dim).Nodup) ∧
    (∀ axis dim dim', axis ∈ l.axes dim → axis ∈ l.axes dim' → dim = dim') ∧
    ∀ dim size, l.axes dim ≠ [] → t.shape[dim]? = some size →
      size ≠ 0 ∧ mesh.shardVolume (l.axes dim) ∣ size := by
  constructor
  · intro h
    refine ⟨fun dim hne => h.dim_lt (mem_partitions.mpr ⟨rfl, hne⟩), fun dim axis haxis =>
      h.axis_lt axis (mem_usedAxes.mpr ⟨dim, haxis⟩), nodup_axes h.nodup, fun axis dim dim' =>
      dim_eq_of_mem h.nodup, fun dim size hne hsize => ?_⟩
    obtain ⟨size', hsize', hpos, hdvd⟩ := h.cuts hne
    cases hsize.symm.trans hsize'
    exact ⟨Nat.ne_of_gt hpos, hdvd⟩
  · rintro ⟨hdim, haxis, hnodup, hshared, hcut⟩
    refine ⟨fun {dim} hne => ?_, fun axis hused => ?_, nodup_usedAxes_iff.mpr ⟨hnodup, hshared _ _ _⟩⟩
    · have hlt : dim < t.shape.length := hdim dim hne
      have hsize : t.shape[dim]? = some t.shape[dim] := List.getElem?_eq_getElem hlt
      obtain ⟨hne, hdvd⟩ := hcut dim _ hne hsize
      exact ⟨_, hsize, Nat.pos_of_ne_zero hne, hdvd⟩
    · obtain ⟨dim, hmem⟩ := mem_usedAxes.mp hused
      exact haxis dim axis hmem

/-- **The check of a layout decides whether it can be realized.** It always has a value, and no shard count
that it divides by is zero. It reports nothing iff every split dimension is one of the tensor, every axis is
one of the mesh, no axis is used twice, neither by one dimension nor by two, and the size of every split
dimension is a multiple of the product of its axis sizes other than zero. A violation that it reports occurs
at a split dimension below which the layout fits. -/
theorem violation?_decides (l : Layout) (t : TensorType) (mesh : Mesh K) :
    (∃ result, l.violation? t mesh = .ok result) ∧
    (∀ axes shards, mesh.shardCount axes = .ok shards → shards ≠ 0) ∧
    (l.violation? t mesh = .ok none ↔
      (∀ dim, l.axes dim ≠ [] → dim < t.rank) ∧
      (∀ dim, ∀ axis ∈ l.axes dim, axis < mesh.rank) ∧
      (∀ dim, (l.axes dim).Nodup) ∧
      (∀ axis dim dim', axis ∈ l.axes dim → axis ∈ l.axes dim' → dim = dim') ∧
      ∀ dim size, l.axes dim ≠ [] → t.shape[dim]? = some size →
        size ≠ 0 ∧ mesh.shardVolume (l.axes dim) ∣ size) ∧
    ∀ v, l.violation? t mesh = .ok (some v) →
      ∃ dim, l.axes dim ≠ [] ∧ v.OccursAt t mesh (l.below dim).usedAxes dim (l.axes dim) ∧
        (l.below dim).violation? t mesh = .ok none :=
  ⟨l.violation?_hasValue t mesh, fun _ _ => shardCount_ne_zero, violation?_eq_none_iff.trans fits_iff,
    fun _ => exists_occursAt_of_violation?⟩

end Layout

end ShardPlan
