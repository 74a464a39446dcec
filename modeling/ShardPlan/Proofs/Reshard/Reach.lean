import Mathlib.Data.List.Sort
import ShardPlan.Proofs.Layout.UsedAxes
import ShardPlan.Proofs.Reshard.Step

/-! # Routes reach their target

The moves of a route are a run that ends in the target (`movesThrough_run`). First the dimensions release
axes, which settles one after the other and unsettles none; then each takes the axes that it lacks. It
does not matter which other dimensions a route goes through, so the route through all dimensions up to a
rank is the route through the split ones (`movesThrough_range`). -/

namespace ShardPlan

namespace Route

variable {target : Layout}

/-! ### Releasing axes -/

theorem takeWhile_append_isPrefix {axis : Nat} {axes : List Nat} (h : axis ∈ axes) :
    axes.takeWhile (fun a => a != axis) ++ [axis] <+: axes := by
  induction axes with
  | nil => simp at h
  | cons a axes ih =>
    by_cases ha : a = axis
    · subst ha; simp
    · have hrest := ih ((List.mem_cons.mp h).resolve_left (Ne.symm ha))
      simpa [ha] using hrest

theorem next_of_destination? {l : Layout} {axis dim dest : Nat}
    (h : destination? target l axis dim = some dest) :
    l.axes dest ++ [axis] <+: target.axes dest := by
  obtain ⟨hdest, hcond⟩ := Option.filter_eq_some_iff.mp h
  rw [Bool.and_eq_true, beq_iff_eq] at hcond
  rw [hcond.2]
  exact takeWhile_append_isPrefix (Layout.mem_axes_of_dimOfAxis? hdest)

theorem step_releaseMove {l : Layout} {axis dim : Nat} {rest : List Nat}
    (hlast : l.axes dim = rest ++ [axis]) (hdim : ¬ l.axes dim <+: target.axes dim) :
    Step target l (releaseMove target l axis dim) := by
  unfold releaseMove
  cases h : destination? target l axis dim with
  | none => exact .gather hlast hdim
  | some dest => exact .exchange hlast hdim (ne_of_destination? h) (next_of_destination? h)

theorem release_run (target : Layout) (dim : Nat) (l : Layout) :
    Run target l (release target dim l).1 (release target dim l).2 ∧
      (release target dim l).2.axes dim <+: target.axes dim := by
  fun_induction release target dim l with
  | case1 l hsettled => exact ⟨.nil l, List.isPrefixOf_iff_prefix.mp hsettled⟩
  | case2 l hdim hnone =>
    rw [List.getLast?_eq_none_iff] at hnone
    simp [hnone] at hdim
  | case3 l hdim axis hlast move moves last hrelease ih =>
    rw [hrelease] at ih
    obtain ⟨rest, hrest⟩ := List.getLast?_eq_some_iff.mp hlast
    rw [List.isPrefixOf_iff_prefix] at hdim
    exact ⟨.cons (step_releaseMove hrest hdim) ih.1, ih.2⟩

/-- **The first phase** settles every dimension that it goes through. -/
theorem releaseAll_run (target : Layout) : ∀ (dims : List Nat) (l : Layout),
    Run target l (releaseAll target dims l).1 (releaseAll target dims l).2 ∧
      ∀ d ∈ dims, (releaseAll target dims l).2.axes d <+: target.axes d
  | [], l => ⟨.nil l, by simp⟩
  | dim :: dims, l => by
    obtain ⟨hfirst, hdim⟩ := release_run target dim l
    obtain ⟨hothers, hdims⟩ := releaseAll_run target dims (release target dim l).2
    refine ⟨hfirst.append hothers, fun d hd => ?_⟩
    rcases List.mem_cons.mp hd with rfl | hd
    · exact hothers.settled hdim
    · exact hdims d hd

/-! ### Taking axes -/

theorem split_run {dim : Nat} : ∀ {axes : List Nat} {l : Layout},
    (∀ d, l.axes d <+: target.axes d) → l.axes dim ++ axes = target.axes dim →
      Run target l (axes.map fun axis => .split axis dim) (l.withAxes dim (target.axes dim))
  | [], l, hall, happ => by
    have hsame : l.withAxes dim (target.axes dim) = l := by
      refine Layout.ext_axes fun d => ?_
      rw [Layout.axes_withAxes]
      split_ifs with h
      · rw [← h, ← happ, List.append_nil]
      · rfl
    rw [hsame]
    exact .nil l
  | axis :: axes, l, hall, happ => by
    have hnext : l.axes dim ++ [axis] <+: target.axes dim := ⟨axes, by simpa using happ⟩
    have hstep : Step target l (.split axis dim) := .split hall hnext
    have happ' : ((Move.split axis dim).apply l).axes dim ++ axes = target.axes dim := by
      rw [axes_split, if_pos rfl]; simpa using happ
    have hrest := split_run (fun d => hstep.settled (hall d)) happ'
    have hsame : ((Move.split axis dim).apply l).withAxes dim (target.axes dim) =
        l.withAxes dim (target.axes dim) := by
      refine Layout.ext_axes fun d => ?_
      rw [Layout.axes_withAxes, Layout.axes_withAxes, axes_split]
      split_ifs <;> rfl
    rw [hsame] at hrest
    exact .cons hstep hrest

theorem splits_congr {l l' : Layout} {dims : List Nat} (h : ∀ d ∈ dims, l.axes d = l'.axes d) :
    splits target l dims = splits target l' dims := by
  unfold splits
  exact List.flatMap_congr fun d hd => by rw [h d hd]

/-- **The second phase** gives every dimension that it goes through the axes it shall have. -/
theorem splits_run : ∀ {dims : List Nat} {l : Layout}, dims.Nodup →
    (∀ d, l.axes d <+: target.axes d) →
      ∃ last, Run target l (splits target l dims) last ∧
        ∀ d, last.axes d = if d ∈ dims then target.axes d else l.axes d
  | [], l, _, _ => ⟨l, .nil l, by simp⟩
  | dim :: dims, l, hnodup, hall => by
    obtain ⟨hdim, hnodup⟩ := List.nodup_cons.mp hnodup
    have happ : l.axes dim ++ (target.axes dim).drop (l.axes dim).length = target.axes dim :=
      List.prefix_iff_eq_append.mp (hall dim)
    have hfirst := split_run hall happ
    set l' := l.withAxes dim (target.axes dim) with hl'
    have hkeep : ∀ d ∈ dims, l.axes d = l'.axes d := by
      intro d hd
      rw [hl', Layout.axes_withAxes, if_neg]
      rintro rfl
      exact hdim hd
    obtain ⟨last, hothers, hlast⟩ := splits_run hnodup fun d => hfirst.settled (hall d)
    refine ⟨last, ?_, fun d => ?_⟩
    · rw [← splits_congr hkeep] at hothers
      exact hfirst.append hothers
    · rw [hlast d, hl', Layout.axes_withAxes]
      by_cases hd : d = dim
      · subst hd; simp [hdim]
      · simp [hd, Ne.symm hd]

/-! ### Whole routes -/

/-- **The moves through dimensions are a run to the target** if no other dimension is split. -/
theorem movesThrough_run {source : Layout} {dims : List Nat} (hnodup : dims.Nodup)
    (hdims : ∀ d, d ∉ dims → source.axes d = [] ∧ target.axes d = []) :
    Run target source (movesThrough dims source target) target := by
  obtain ⟨hrelease, hsettled⟩ := releaseAll_run target dims source
  have hother : ∀ d, d ∉ dims → (releaseAll target dims source).2.axes d = [] := fun d hd =>
    hrelease.axes_eq_nil (hdims d hd).1 (hdims d hd).2
  have hall : ∀ d, (releaseAll target dims source).2.axes d <+: target.axes d := by
    intro d
    by_cases hd : d ∈ dims
    · exact hsettled d hd
    · rw [hother d hd]; exact List.nil_prefix
  obtain ⟨last, hsplit, hlast⟩ := splits_run hnodup hall
  have hreach : last = target := by
    refine Layout.ext_axes fun d => ?_
    rw [hlast d]
    split_ifs with hd
    · rfl
    · rw [hother d hd, (hdims d hd).2]
  rw [hreach] at hsplit
  exact hrelease.append hsplit

theorem mem_dims {source : Layout} {d : Nat} :
    d ∈ dims source target ↔ source.axes d ≠ [] ∨ target.axes d ≠ [] := by
  have hpart : ∀ l : Layout, d ∈ l.partitions.map Prod.fst ↔ l.axes d ≠ [] := by
    intro l
    rw [List.mem_map]
    constructor
    · rintro ⟨⟨d, axes⟩, he, rfl⟩
      obtain ⟨rfl, hne⟩ := Layout.mem_partitions.mp he
      exact hne
    · intro hne
      exact ⟨(d, l.axes d), Layout.mem_partitions.mpr ⟨rfl, hne⟩, rfl⟩
  rw [dims, SortedMap.mem_keys_ofList, List.map_append, List.mem_append, hpart, hpart]

theorem pairwise_dims (source target : Layout) : (dims source target).Pairwise (· < ·) :=
  (SortedMap.keys_ascending _).imp fun h => by simpa [Key.before] using h

/-- **The moves of a route are a run from its source to its target.** -/
theorem moves_run (source target : Layout) : Run target source (moves source target) target := by
  refine movesThrough_run ((pairwise_dims source target).imp Nat.ne_of_lt) fun d hd => ?_
  rw [mem_dims, not_or, not_not, not_not] at hd
  exact hd

theorem moves_self (l : Layout) : moves l l = [] := by
  have hrun := moves_run l l
  cases hmoves : moves l l with
  | nil => rfl
  | cons move rest =>
    rw [hmoves] at hrun
    cases hrun with
    | cons hstep hrun =>
      cases hstep with
      | gather hlast hdim => exact absurd (List.prefix_refl _) hdim
      | exchange hlast hdim hne hnext => exact absurd (List.prefix_refl _) hdim
      | split hall hnext =>
        have hlength := hnext.length_le
        rw [List.length_append, List.length_singleton] at hlength
        omega

/-! ### Dimensions that are not split -/

theorem releaseAll_cons (dim : Nat) (dims : List Nat) (l : Layout) :
    releaseAll target (dim :: dims) l =
      ((release target dim l).1 ++ (releaseAll target dims (release target dim l).2).1,
        (releaseAll target dims (release target dim l).2).2) := rfl

theorem releaseAll_filter {p : Nat → Bool} : ∀ {dims : List Nat} {l : Layout},
    (∀ d, p d = false → l.axes d = [] ∧ target.axes d = []) →
      releaseAll target (dims.filter p) l = releaseAll target dims l
  | [], l, _ => rfl
  | dim :: dims, l, h => by
    by_cases hp : p dim = true
    · have hrun := (release_run target dim l).1
      have hnext : ∀ d, p d = false → (release target dim l).2.axes d = [] ∧ target.axes d = [] :=
        fun d hd => ⟨hrun.axes_eq_nil (h d hd).1 (h d hd).2, (h d hd).2⟩
      rw [List.filter_cons_of_pos hp, releaseAll_cons, releaseAll_cons, releaseAll_filter hnext]
    · have hnil := (h dim (by simpa using hp)).1
      have hrelease : release target dim l = ([], l) := by
        rw [release, hnil, if_pos]
        rfl
      rw [List.filter_cons_of_neg hp, releaseAll_filter h, releaseAll_cons, hrelease]
      simp

theorem splits_filter {p : Nat → Bool} {l : Layout} (h : ∀ d, p d = false → target.axes d = []) :
    ∀ dims, splits target l (dims.filter p) = splits target l dims
  | [] => rfl
  | dim :: dims => by
    have hrest := splits_filter (l := l) h dims
    unfold splits at hrest ⊢
    by_cases hp : p dim = true
    · rw [List.filter_cons_of_pos hp, List.flatMap_cons, List.flatMap_cons, hrest]
    · rw [List.filter_cons_of_neg hp, List.flatMap_cons, h dim (by simpa using hp), hrest]
      simp

/-- A route through all dimensions up to a number makes the moves of a route through the split ones. -/
theorem movesThrough_range {source : Layout} {n : Nat}
    (hn : ∀ d ∈ dims source target, d < n) :
    movesThrough (List.range n) source target = moves source target := by
  set p : Nat → Bool := fun d => d ∈ dims source target with hp
  have hsplit : ∀ d, p d = false → source.axes d = [] ∧ target.axes d = [] := by
    intro d hd
    simpa [hp, mem_dims] using hd
  have hfilter : (List.range n).filter p = dims source target := by
    refine List.Perm.eq_of_pairwise' (r := (· < ·)) (List.pairwise_lt_range.filter p)
      (pairwise_dims source target) ?_
    rw [List.perm_ext_iff_of_nodup (List.nodup_range.filter p)
      ((pairwise_dims source target).imp Nat.ne_of_lt)]
    intro d
    simp only [List.mem_filter, List.mem_range, hp, decide_eq_true_eq]
    exact ⟨fun h => h.2, fun h => ⟨hn d h, h⟩⟩
  unfold moves movesThrough
  rw [← hfilter, releaseAll_filter hsplit]
  simp only [splits_filter fun d hd => (hsplit d hd).2]

/-! ### All dimensions of a tensor -/

theorem foldlM_span : ∀ {entries : List (Nat × List Nat)} (rank : Nat),
    (∀ e ∈ entries, e.1 + 1 < wordLimit) →
      ∃ n, entries.foldlM (fun n e => return max n (← Size.succ e.1)) rank = (.ok n : Checked Nat) ∧
        rank ≤ n ∧ ∀ e ∈ entries, e.1 < n
  | [], rank, _ => ⟨rank, rfl, le_rfl, by simp⟩
  | e :: entries, rank, h => by
    obtain ⟨he, hentries⟩ := List.forall_mem_cons.mp h
    obtain ⟨n, hn, hle, hlt⟩ := foldlM_span (max rank (e.1 + 1)) hentries
    refine ⟨n, ?_, by omega, fun e' he' => ?_⟩
    · rw [List.foldlM_cons, Size.succ, if_pos he]
      exact hn
    · rcases List.mem_cons.mp he' with rfl | he'
      · omega
      · exact hlt e' he'

theorem span_eq_ok {source : Layout} (rank : Nat)
    (h : ∀ e ∈ source.partitions ++ target.partitions, e.1 + 1 < wordLimit) :
    ∃ n, span rank source target = .ok n ∧ ∀ d ∈ dims source target, d < n := by
  obtain ⟨n, hspan, -, hlt⟩ := foldlM_span rank h
  refine ⟨n, hspan, fun d hd => ?_⟩
  rw [dims, SortedMap.mem_keys_ofList] at hd
  obtain ⟨e, he, rfl⟩ := List.mem_map.mp hd
  exact hlt e he

/-- **A route reaches its target.** The dimensions of the tensor and of both layouts can be counted unless
a layout splits the last dimension of all, and the moves through them, which are those through the split
ones, lead from the source to the target. Axes may be used more than once, and neither the mesh nor the
tensor limits them. -/
theorem route_reaches_target (rank : Nat) (source target : Layout)
    (h : ∀ e ∈ source.partitions ++ target.partitions, e.1 + 1 < wordLimit) :
    ∃ n, span rank source target = .ok n ∧
      movesThrough (List.range n) source target = moves source target ∧
        Move.applyAll (moves source target) source = target := by
  obtain ⟨n, hspan, hlt⟩ := span_eq_ok rank h
  exact ⟨n, hspan, movesThrough_range hlt, (moves_run source target).applyAll_eq⟩

/-- A layout that uses axis 1 twice in one dimension and axis 0 in two dimensions. -/
def reusing : Layout := .ofPairs [(0, [1, 1, 0]), (3, [0, 2])]

/-- Between two layouts that use axes twice and split more dimensions than the tensor has. -/
theorem route_reaches_target_of_reusing :
    (∀ e ∈ reusing.partitions ++ (reusing.transposed 0 3).partitions, e.1 + 1 < wordLimit) ∧
      ∃ n, span 2 reusing (reusing.transposed 0 3) = .ok n ∧
        movesThrough (List.range n) reusing (reusing.transposed 0 3) =
            moves reusing (reusing.transposed 0 3) ∧
          Move.applyAll (moves reusing (reusing.transposed 0 3)) reusing = reusing.transposed 0 3 :=
  ⟨by decide, route_reaches_target 2 _ _ (by decide)⟩

end Route

end ShardPlan
