import ShardPlan.Proofs.Layout.UsedAxes

/-! # Layouts made of pairs

A layout can be made of pairs of a dimension and its axes, of which the last for a dimension wins. Where all
the pairs of a dimension say the same, the dimension has the axes that they say (`axes_ofPairs_eq`). So it is
when the dimensions of a layout are renamed, each to one that no other becomes: a layout with two dimensions
exchanged has their axes exchanged (`axes_transposed`). -/

namespace ShardPlan

namespace Layout

/-- The axes of a dimension after pairs of which the last for the dimension wins. -/
theorem axes_foldl_withAxes {pairs : List (Nat × List Nat)} {dim : Nat} {axes : List Nat} {l : Layout}
    (hpairs : ∀ e ∈ pairs, e.1 = dim → e.2 = axes) (hl : l.axes dim = axes ∨ (dim, axes) ∈ pairs) :
    (pairs.foldl (fun l e => l.withAxes e.1 e.2) l).axes dim = axes := by
  induction pairs generalizing l with
  | nil => simpa using hl
  | cons e pairs ih =>
    obtain ⟨he, hpairs⟩ := List.forall_mem_cons.mp hpairs
    refine ih hpairs ?_
    rw [axes_withAxes]
    split_ifs with heq
    · exact .inl (he heq)
    · refine hl.imp_right fun hmem => ?_
      rcases List.mem_cons.mp hmem with rfl | hmem
      · exact absurd rfl heq
      · exact hmem

/-- **The axes that pairs give a dimension** if all its pairs agree, and there is one unless there are no
axes. -/
theorem axes_ofPairs_eq {pairs : List (Nat × List Nat)} {dim : Nat} {axes : List Nat}
    (hpairs : ∀ e ∈ pairs, e.1 = dim → e.2 = axes) (hmem : axes ≠ [] → (dim, axes) ∈ pairs) :
    (ofPairs pairs).axes dim = axes := by
  refine axes_foldl_withAxes (fun e he => hpairs e (List.mem_of_mem_filter he)) ?_
  by_cases hnil : axes = []
  · exact .inl (by rw [hnil, axes_replicated])
  · exact .inr (List.mem_filter.mpr ⟨hmem hnil, by simpa using hnil⟩)

theorem axes_ofPairs_singleton (dim : Nat) (axes : List Nat) (d : Nat) :
    (ofPairs [(dim, axes)]).axes d = if dim = d then axes else [] := by
  refine axes_ofPairs_eq (fun e he heq => ?_) fun hne => ?_
  · rw [List.mem_singleton.mp he] at heq ⊢
    rw [if_pos heq]
  · split_ifs at hne ⊢ with heq
    · rw [heq]
      exact List.mem_singleton.mpr rfl
    · exact absurd rfl hne

theorem axes_replicated_withAxes (dim : Nat) (axes : List Nat) (d : Nat) :
    (replicated.withAxes dim axes).axes d = if dim = d then axes else [] := by
  rw [axes_withAxes, axes_replicated]

theorem axes_ofPairs_pair {dim dim' : Nat} (hne : dim ≠ dim') (axes axes' : List Nat) :
    (ofPairs [(dim, axes), (dim', axes')]).axes dim = axes ∧
      (ofPairs [(dim, axes), (dim', axes')]).axes dim' = axes' := by
  constructor
  · refine axes_ofPairs_eq (fun e he heq => ?_) fun _ => by simp
    rcases List.mem_cons.mp he with rfl | he
    · rfl
    · rw [List.mem_singleton.mp he] at heq
      exact absurd heq.symm hne
  · refine axes_ofPairs_eq (fun e he heq => ?_) fun _ => by simp
    rcases List.mem_cons.mp he with rfl | he
    · exact absurd heq hne
    · rw [List.mem_singleton.mp he]

/-- **Renaming some of the dimensions**, no two of them to one: `dim` gets the axes of the dimension that
becomes `dim`, or none if there is no such dimension. -/
theorem axes_ofPairs_filterMap (l : Layout) (rename : Nat → Option Nat) (source : Nat) {dim : Nat}
    (hsource : ∀ {d}, rename d = some dim → d = source) :
    (ofPairs (l.partitions.filterMap fun e => (rename e.1).map fun d => (d, e.2))).axes dim =
      if rename source = some dim then l.axes source else [] := by
  refine axes_ofPairs_eq (fun e he heq => ?_) fun hne => ?_
  · obtain ⟨⟨d, axes⟩, hmem, he⟩ := List.mem_filterMap.mp he
    obtain ⟨d', hd', rfl⟩ := Option.map_eq_some_iff.mp he
    have heq : d' = dim := heq
    rw [heq] at hd'
    have hd : d = source := hsource hd'
    rw [← hd, if_pos hd']
    exact (mem_partitions.mp hmem).1.symm
  · split_ifs at hne ⊢ with hrename
    · refine List.mem_filterMap.mpr ⟨(source, l.axes source), mem_partitions.mpr ⟨rfl, hne⟩, ?_⟩
      rw [hrename]
      rfl
    · exact absurd rfl hne

/-! ### Exchanged dimensions -/

theorem exchange_exchange (a b dim : Nat) : exchange a b (exchange a b dim) = dim := by
  unfold exchange
  split_ifs <;> omega

theorem exchange_injective (a b : Nat) : Function.Injective (exchange a b) :=
  Function.LeftInverse.injective (exchange_exchange a b)

theorem axes_transposed (l : Layout) (a b dim : Nat) :
    (l.transposed a b).axes dim = l.axes (exchange a b dim) := by
  have hpairs : l.partitions.map (fun e => (exchange a b e.1, e.2)) =
      l.partitions.filterMap fun e => (some (exchange a b e.1)).map fun d => (d, e.2) := by
    rw [← List.filterMap_eq_map]
    rfl
  rw [transposed, hpairs, axes_ofPairs_filterMap l (fun d => some (exchange a b d)) (exchange a b dim),
    if_pos (by rw [exchange_exchange])]
  intro d hd
  rw [← Option.some.inj hd, exchange_exchange]

end Layout

end ShardPlan
