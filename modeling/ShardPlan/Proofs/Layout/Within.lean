import ShardPlan.Layout.Sequence
import ShardPlan.Proofs.Layout.Fit
import ShardPlan.Proofs.Layout.Pairs

/-! # Layouts within a rank

Strategies are costed before anyone looks at the sizes of the tensors, so what is known of their layouts is
less than that they fit: they split dimensions below some rank, along axes of the mesh, and no axis twice
(`Layout.Within`). A layout made from such a layout by renaming or dropping dimensions is again such a
layout (`Within.of_axes`). The check whether a layout fits always has a value (`violation?_hasValue`), and
the only rule that a layout within the rank of a tensor can break is that of equal shards
(`Within.violation?_eq`). -/

namespace ShardPlan

namespace Layout

variable {K : Type} {l l' : Layout} {rank rank' : Nat} {mesh : Mesh K} {t : TensorType}

/-- **The layout stays within a rank and a mesh**: the dimensions that it splits are below the rank, and
every axis belongs to the mesh and is used once. -/
structure Within (l : Layout) (rank : Nat) (mesh : Mesh K) : Prop where
  dim_lt : ∀ {dim}, l.axes dim ≠ [] → dim < rank
  axis_lt : ∀ axis ∈ l.usedAxes, axis < mesh.rank
  nodup : l.usedAxes.Nodup

theorem Fits.within (h : l.Fits t mesh) : l.Within t.rank mesh :=
  ⟨fun hdim => h.dim_lt (mem_partitions.mpr ⟨rfl, hdim⟩), h.axis_lt, h.nodup⟩

theorem fits_iff_within : l.Fits t mesh ↔ l.Within t.rank mesh ∧
    ∀ {dim}, l.axes dim ≠ [] → CutsEvenly t mesh dim (l.axes dim) :=
  ⟨fun h => ⟨h.within, h.cuts⟩, fun h => ⟨h.2, h.1.axis_lt, h.1.nodup⟩⟩

namespace Within

/-! ### Making layouts -/

theorem replicated : Layout.replicated.Within rank mesh :=
  ⟨fun h => absurd rfl h, nofun, List.nodup_nil⟩

theorem withAxes (h : l.Within rank mesh) {dim : Nat} {axes : List Nat} (hdim : dim < rank)
    (hlt : ∀ axis ∈ axes, axis < mesh.rank) (hnodup : axes.Nodup)
    (hnew : ∀ axis ∈ axes, axis ∉ l.usedAxes) : (l.withAxes dim axes).Within rank mesh := by
  have haxes := axes_withAxes l dim axes
  refine ⟨fun {d} hd => ?_, fun axis haxis => ?_, nodup_usedAxes_iff.mpr ⟨fun d => ?_, ?_⟩⟩
  · rw [haxes] at hd
    split_ifs at hd with heq
    · omega
    · exact h.dim_lt hd
  · obtain ⟨d, hd⟩ := mem_usedAxes.mp haxis
    rw [haxes] at hd
    split_ifs at hd
    · exact hlt axis hd
    · exact h.axis_lt axis (mem_usedAxes.mpr ⟨d, hd⟩)
  · rw [haxes]
    split_ifs
    · exact hnodup
    · exact nodup_axes h.nodup d
  · intro axis d d' hd hd'
    rw [haxes] at hd hd'
    split_ifs at hd hd' with h1 h2 h2
    · omega
    · exact absurd (mem_usedAxes.mpr ⟨d', hd'⟩) (hnew axis hd)
    · exact absurd (mem_usedAxes.mpr ⟨d, hd⟩) (hnew axis hd')
    · exact dim_eq_of_mem h.nodup hd hd'

theorem along {dim : Nat} {axes : List Nat} (hdim : dim < rank)
    (hlt : ∀ axis ∈ axes, axis < mesh.rank) (hnodup : axes.Nodup) :
    (Layout.replicated.withAxes dim axes).Within rank mesh :=
  replicated.withAxes hdim hlt hnodup fun _ _ => List.not_mem_nil

/-- **Renaming dimensions**: a layout each of whose dimensions has the axes of one of `l`, and no two those
of the same one, or no axes. -/
theorem of_axes (h : l.Within rank mesh) (source : Nat → Nat)
    (hsource : Function.Injective source)
    (haxes : ∀ {dim}, l'.axes dim ≠ [] → dim < rank' ∧ l'.axes dim = l.axes (source dim)) :
    l'.Within rank' mesh := by
  have hmem : ∀ {axis dim}, axis ∈ l'.axes dim → axis ∈ l.axes (source dim) := by
    intro axis dim haxis
    rwa [(haxes (List.ne_nil_of_mem haxis)).2] at haxis
  refine ⟨fun hdim => (haxes hdim).1, fun axis haxis => ?_, nodup_usedAxes_iff.mpr ⟨fun dim => ?_, ?_⟩⟩
  · obtain ⟨dim, hdim⟩ := mem_usedAxes.mp haxis
    exact h.axis_lt axis (mem_usedAxes.mpr ⟨_, hmem hdim⟩)
  · by_cases hdim : l'.axes dim = []
    · rw [hdim]
      exact List.nodup_nil
    · rw [(haxes hdim).2]
      exact nodup_axes h.nodup _
  · intro axis dim dim' hdim hdim'
    exact hsource (dim_eq_of_mem h.nodup (hmem hdim) (hmem hdim'))

theorem transposed (h : l.Within rank mesh) {a b : Nat} (ha : a < rank) (hb : b < rank) :
    (l.transposed a b).Within rank mesh := by
  refine h.of_axes (exchange a b) (exchange_injective a b) fun {dim} hdim => ?_
  rw [axes_transposed] at hdim ⊢
  refine ⟨?_, rfl⟩
  have hlt := h.dim_lt hdim
  unfold exchange at hlt
  split_ifs at hlt <;> omega

/-! ### Texts -/

theorem sequenceLength_hasValue (h : l.Within rank mesh) (hrank : rank < wordLimit) (shown : Nat) :
    HasValue (l.sequenceLength shown) := by
  unfold sequenceLength
  split
  · exact .ok shown
  · rename_i dim hdim
    obtain ⟨e, he, rfl⟩ := Option.map_eq_some_iff.mp hdim
    obtain ⟨heq, hne⟩ := mem_partitions.mp (List.mem_of_getLast? he)
    have hlt := h.dim_lt (heq ▸ hne)
    rw [Size.succ, if_pos (by omega)]
    exact .ok _

theorem dimTexts_hasValue (h : l.Within rank mesh) (hrank : rank < wordLimit) (shown : Nat) :
    HasValue (l.dimTexts shown) :=
  (h.sequenceLength_hasValue hrank shown).bind fun _ _ => .ok _

theorem sequence_hasValue (h : l.Within rank mesh) (hrank : rank < wordLimit) (shown : Nat) :
    HasValue (l.sequence shown) :=
  (h.dimTexts_hasValue hrank shown).bind fun _ _ => .ok _

theorem compactSequence_hasValue (h : l.Within rank mesh) (hrank : rank < wordLimit) (shown : Nat) :
    HasValue (l.compactSequence shown) :=
  (h.dimTexts_hasValue hrank shown).bind fun _ _ => .ok _

end Within

/-! ### Violations -/

theorem findViolation_hasValue : ∀ {entries : List (Nat × List Nat)} {seen : List Nat}, seen.Nodup →
    HasValue (findViolation t mesh seen entries)
  | [], _, _ => .ok none
  | (dim, axes) :: entries, seen, hseen => by
    unfold findViolation
    split
    · exact .ok _
    · split
      · exact .ok _
      · rename_i seen' hcheck
        obtain ⟨rfl, hlt, hnodup⟩ := (checkAxes_eq_ok_iff hseen).mp hcheck
        have haxes : axes.Nodup := List.nodup_reverse.mp (List.nodup_append.mp hnodup).1
        have hcount : HasValue (mesh.shardCount axes) := ⟨_, Mesh.shardCount_eq_ok haxes hlt⟩
        refine hcount.bind fun shards _ => ?_
        split
        · exact .ok _
        · exact findViolation_hasValue hnodup

/-- **Whether a layout fits is decided** without a fault, whatever the layout. -/
theorem violation?_hasValue (l : Layout) (t : TensorType) (mesh : Mesh K) :
    HasValue (l.violation? t mesh) :=
  findViolation_hasValue List.nodup_nil

theorem findViolation_eq_notDivisible : ∀ {entries : List (Nat × List Nat)} {seen : List Nat},
    seen.Nodup → (∀ e ∈ entries, e.1 < t.rank ∧ ∀ axis ∈ e.2, axis < mesh.rank) →
      ((entries.flatMap Prod.snd).reverse ++ seen).Nodup → ∀ {v : Violation},
        findViolation t mesh seen entries = .ok (some v) →
          ∃ e ∈ entries, ∃ size, t.shape[e.1]? = some size ∧
            v = .notDivisible e.1 size (mesh.shardVolume e.2)
  | [], _, _, _, _, _, h => nomatch h
  | (dim, axes) :: entries, seen, hseen, hentries, hnodup, v, h => by
    obtain ⟨⟨hdim, hlt⟩, hentries⟩ := List.forall_mem_cons.mp hentries
    have happ : (((dim, axes) :: entries).flatMap Prod.snd).reverse ++ seen =
        (entries.flatMap Prod.snd).reverse ++ (axes.reverse ++ seen) := by simp
    rw [happ] at hnodup
    have hseen' : (axes.reverse ++ seen).Nodup := (List.nodup_append.mp hnodup).2.1
    have haxes : axes.Nodup := List.nodup_reverse.mp (List.nodup_append.mp hseen').1
    have hsize : t.shape[dim]? = some t.shape[dim] := List.getElem?_eq_getElem hdim
    have hcheck : checkAxes mesh seen axes = .ok (axes.reverse ++ seen) :=
      (checkAxes_eq_ok_iff hseen).mpr ⟨rfl, hlt, hseen'⟩
    rw [findViolation, hsize] at h
    simp only [hcheck, Mesh.shardCount_eq_ok haxes hlt, bind, Except.bind] at h
    split at h
    · cases h
      exact ⟨(dim, axes), by simp, _, hsize, rfl⟩
    · obtain ⟨e, he, hv⟩ := findViolation_eq_notDivisible hseen' hentries hnodup h
      exact ⟨e, List.mem_cons_of_mem _ he, hv⟩

/-- **A layout within the rank of a tensor** fits it, or there is a dimension that it does not cut into
equal shards. -/
theorem Within.violation?_eq (h : l.Within t.rank mesh) : l.violation? t mesh = .ok none ∨
    ∃ dim size, t.shape[dim]? = some size ∧
      l.violation? t mesh = .ok (some (.notDivisible dim size (mesh.shardVolume (l.axes dim)))) := by
  obtain ⟨v, hv⟩ := l.violation?_hasValue t mesh
  cases v with
  | none => exact .inl hv
  | some v =>
    have hentries : ∀ e ∈ l.partitions, e.1 < t.rank ∧ ∀ axis ∈ e.2, axis < mesh.rank := by
      intro e he
      obtain ⟨heq, hne⟩ := mem_partitions.mp he
      refine ⟨h.dim_lt (heq ▸ hne), fun axis haxis => h.axis_lt axis ?_⟩
      exact List.mem_flatMap.mpr ⟨e, he, haxis⟩
    have hnodup : ((l.partitions.flatMap Prod.snd).reverse ++ []).Nodup := by
      rw [List.append_nil, List.nodup_reverse]
      exact h.nodup
    obtain ⟨e, he, size, hsize, rfl⟩ :=
      findViolation_eq_notDivisible List.nodup_nil hentries hnodup hv
    exact .inr ⟨e.1, size, hsize, by rw [hv, (mem_partitions.mp he).1]⟩

end Layout

end ShardPlan
