import Mathlib.Data.List.Lattice
import ShardPlan.Proofs.Candidate.Elementwise
import ShardPlan.Proofs.Layout.Spelling

/-! # Layouts considered for an output

An element-wise operation considers four families of layouts for its output (`Considers`): it splits nothing,
one dimension along one axis, one along all axes, or two dimensions along an axis each. It considers each of
them once (`nodup_outputLayouts`), and the layout can be told from the name of the strategy (`eq_of_name`),
although the numbers of the axes are written without anything between them. -/

namespace ShardPlan

namespace Elementwise

/-- **The layouts that are considered for an output**: replicated, one dimension along one axis, one dimension
along all axes of a mesh with several, and two dimensions along an axis each of a mesh with two. -/
inductive Considers (rank axisCount : Nat) : Layout → Prop
  | replicated : Considers rank axisCount .replicated
  | single {dim axis : Nat} (hdim : dim < rank) (haxis : axis < axisCount) :
      Considers rank axisCount (.ofPairs [(dim, [axis])])
  | full {dim : Nat} (hdim : dim < rank) (hmany : 2 ≤ axisCount) :
      Considers rank axisCount (.ofPairs [(dim, List.range axisCount)])
  | pair {a b : Nat} (htwo : axisCount = 2) (ha : a < rank) (hb : b < rank) (hne : a ≠ b) :
      Considers rank axisCount (.ofPairs [(a, [0]), (b, [1])])

/-! ### The families of layouts -/

/-- One dimension along one axis. -/
def singles (rank axisCount : Nat) : List Layout :=
  (List.range rank).flatMap fun dim => (List.range axisCount).map fun axis =>
    Layout.replicated.withAxes dim [axis]

/-- One dimension along all of several axes. -/
def fulls (rank axisCount : Nat) : List Layout :=
  if 1 < axisCount then
    (List.range rank).map fun dim => Layout.replicated.withAxes dim (List.range axisCount)
  else []

/-- Two dimensions along an axis each. -/
def pairs (rank axisCount : Nat) : List Layout :=
  if axisCount = 2 then
    (List.range rank).flatMap fun a => ((List.range rank).filter (· != a)).map fun b =>
      (Layout.replicated.withAxes a [0]).withAxes b [1]
  else []

theorem outputLayouts_eq (rank axisCount : Nat) : outputLayouts rank axisCount =
    [.replicated] ++ singles rank axisCount ++ fulls rank axisCount ++ pairs rank axisCount := rfl

variable {rank axisCount : Nat} {l : Layout}

theorem mem_singles : l ∈ singles rank axisCount ↔
    ∃ dim < rank, ∃ axis < axisCount, l = Layout.replicated.withAxes dim [axis] := by
  simp only [singles, List.mem_flatMap, List.mem_map, List.mem_range, eq_comm]

theorem mem_fulls : l ∈ fulls rank axisCount ↔ 1 < axisCount ∧
    ∃ dim < rank, l = Layout.replicated.withAxes dim (List.range axisCount) := by
  unfold fulls
  split_ifs with hmany
  · simp only [List.mem_map, List.mem_range, eq_comm, hmany, true_and]
  · simp [hmany]

theorem mem_pairs : l ∈ pairs rank axisCount ↔ axisCount = 2 ∧
    ∃ a < rank, ∃ b < rank, a ≠ b ∧ l = (Layout.replicated.withAxes a [0]).withAxes b [1] := by
  unfold pairs
  split_ifs with htwo
  · simp only [List.mem_flatMap, List.mem_map, List.mem_filter, List.mem_range, bne_iff_ne, htwo,
      true_and]
    constructor
    · rintro ⟨a, ha, b, ⟨hb, hne⟩, rfl⟩; exact ⟨a, ha, b, hb, hne.symm, rfl⟩
    · rintro ⟨a, ha, b, hb, hne, rfl⟩; exact ⟨a, ha, b, ⟨hb, hne.symm⟩, rfl⟩
  · simp [htwo]

theorem range_ne_nil (hmany : 1 < axisCount) : List.range axisCount ≠ [] := by
  rw [ne_eq, List.range_eq_nil]; omega

theorem ofPairs_range (dim : Nat) (hmany : 1 < axisCount) :
    Layout.ofPairs [(dim, List.range axisCount)] =
      Layout.replicated.withAxes dim (List.range axisCount) := by
  simp [Layout.ofPairs, range_ne_nil hmany]

theorem mem_outputLayouts_iff : l ∈ outputLayouts rank axisCount ↔ Considers rank axisCount l := by
  simp only [outputLayouts_eq, List.mem_append, List.mem_singleton, mem_singles, mem_fulls, mem_pairs]
  constructor
  · rintro (((rfl | ⟨dim, hdim, axis, haxis, rfl⟩) | ⟨hmany, dim, hdim, rfl⟩) |
      ⟨htwo, a, ha, b, hb, hne, rfl⟩)
    · exact .replicated
    · exact .single hdim haxis
    · rw [← ofPairs_range dim hmany]
      exact .full hdim hmany
    · exact .pair htwo ha hb hne
  · intro h
    cases h with
    | replicated => exact .inl (.inl (.inl rfl))
    | @single dim axis hdim haxis => exact .inl (.inl (.inr ⟨dim, hdim, axis, haxis, rfl⟩))
    | @full dim hdim hmany => exact .inl (.inr ⟨hmany, dim, hdim, ofPairs_range dim hmany⟩)
    | @pair a b htwo ha hb hne => exact .inr ⟨htwo, a, ha, b, hb, hne, rfl⟩

/-! ### Layouts that differ -/

theorem along_injective {dim dim' : Nat} {axes axes' : List Nat} (hne : axes ≠ [])
    (h : Layout.replicated.withAxes dim axes = Layout.replicated.withAxes dim' axes') :
    dim = dim' ∧ axes = axes' := by
  have haxes := congrArg (fun l => l.axes dim) h
  simp only [Layout.axes_replicated_withAxes, if_true] at haxes
  split_ifs at haxes with heq
  · exact ⟨heq.symm, haxes⟩
  · exact absurd haxes hne

theorem along_ne_replicated {axes : List Nat} (hne : axes ≠ []) (dim : Nat) :
    Layout.replicated.withAxes dim axes ≠ .replicated := by
  intro h
  have haxes := Layout.axes_replicated_withAxes dim axes dim
  rw [h, Layout.axes_replicated, if_pos rfl] at haxes
  exact hne haxes.symm

section Pair

variable {a b : Nat} (hne : a ≠ b)
include hne

theorem axes_pair : ((Layout.replicated.withAxes a [0]).withAxes b [1]).axes a = [0] ∧
    ((Layout.replicated.withAxes a [0]).withAxes b [1]).axes b = [1] :=
  Layout.axes_ofPairs_pair hne [0] [1]

theorem pair_injective {a' b' : Nat} (h : (Layout.replicated.withAxes a [0]).withAxes b [1] =
    (Layout.replicated.withAxes a' [0]).withAxes b' [1]) : a = a' ∧ b = b' := by
  obtain ⟨hfirst, hsecond⟩ := axes_pair hne
  rw [h] at hfirst hsecond
  simp only [Layout.axes_withAxes, Layout.axes_replicated] at hfirst hsecond
  constructor
  · split_ifs at hfirst with hb ha
    · exact absurd hfirst (by decide)
    · exact ha.symm
  · split_ifs at hsecond with hb ha
    · exact hb.symm
    · exact absurd hsecond (by decide)

theorem pair_ne_along (dim : Nat) (axes : List Nat) :
    (Layout.replicated.withAxes a [0]).withAxes b [1] ≠ Layout.replicated.withAxes dim axes := by
  intro h
  obtain ⟨hfirst, hsecond⟩ := axes_pair hne
  rw [h, Layout.axes_replicated_withAxes] at hfirst hsecond
  split_ifs at hfirst hsecond with ha hb
  · exact hne (ha.symm.trans hb)

theorem pair_ne_replicated :
    (Layout.replicated.withAxes a [0]).withAxes b [1] ≠ .replicated := by
  intro h
  obtain ⟨hfirst, -⟩ := axes_pair hne
  rw [h] at hfirst
  exact absurd hfirst (List.cons_ne_nil 0 []).symm

end Pair

theorem nodup_singles (rank axisCount : Nat) : (singles rank axisCount).Nodup := by
  refine nodup_flatMap_of_tell List.nodup_range (fun dim _ => ?_) fun dim dim' l hl hl' => ?_
  · refine List.nodup_range.map fun axis axis' h => ?_
    exact (List.cons.inj (along_injective (List.cons_ne_nil axis []) h).2).1
  · obtain ⟨axis, -, rfl⟩ := List.mem_map.mp hl
    obtain ⟨axis', -, h⟩ := List.mem_map.mp hl'
    exact (along_injective (List.cons_ne_nil axis' []) h).1.symm

theorem nodup_fulls (rank axisCount : Nat) : (fulls rank axisCount).Nodup := by
  unfold fulls
  split_ifs with hmany
  · exact List.nodup_range.map fun dim dim' h => (along_injective (range_ne_nil hmany) h).1
  · exact List.nodup_nil

theorem nodup_pairs (rank axisCount : Nat) : (pairs rank axisCount).Nodup := by
  unfold pairs
  have hne : ∀ {a b}, b ∈ (List.range rank).filter (· != a) → a ≠ b := fun hb =>
    (bne_iff_ne.mp (List.mem_filter.mp hb).2).symm
  split_ifs with htwo
  · refine nodup_flatMap_of_tell List.nodup_range (fun a _ => ?_) fun a a' l hl hl' => ?_
    · refine List.Nodup.map_on (fun b hb b' _ h => ?_) (List.nodup_range.filter _)
      exact (pair_injective (hne hb) h).2
    · obtain ⟨b, hb, rfl⟩ := List.mem_map.mp hl
      obtain ⟨b', -, h⟩ := List.mem_map.mp hl'
      exact (pair_injective (hne hb) h.symm).1
  · exact List.nodup_nil

/-- **No layout is considered twice.** The families are told apart by how many dimensions are split, and
along how many axes. -/
theorem nodup_outputLayouts (rank axisCount : Nat) : (outputLayouts rank axisCount).Nodup := by
  rw [outputLayouts_eq]
  refine (((List.nodup_singleton _).append (nodup_singles _ _) ?_).append (nodup_fulls _ _) ?_).append
    (nodup_pairs _ _) ?_
  · rintro l hl hl'
    obtain ⟨dim, -, axis, -, rfl⟩ := mem_singles.mp hl'
    exact along_ne_replicated (List.cons_ne_nil axis []) dim (List.mem_singleton.mp hl)
  · rintro l hl hl'
    obtain ⟨hmany, dim, -, rfl⟩ := mem_fulls.mp hl'
    rcases List.mem_append.mp hl with hl | hl
    · exact along_ne_replicated (range_ne_nil hmany) dim (List.mem_singleton.mp hl)
    · obtain ⟨dim', -, axis, -, h⟩ := mem_singles.mp hl
      have hlength := congrArg List.length (along_injective (range_ne_nil hmany) h).2
      rw [List.length_singleton, List.length_range] at hlength
      omega
  · rintro l hl hl'
    obtain ⟨-, a, -, b, -, hne, rfl⟩ := mem_pairs.mp hl'
    rcases List.mem_append.mp hl with hl | hl
    · rcases List.mem_append.mp hl with hl | hl
      · exact pair_ne_replicated hne (List.mem_singleton.mp hl)
      · obtain ⟨dim, -, axis, -, h⟩ := mem_singles.mp hl
        exact pair_ne_along hne dim [axis] h
    · obtain ⟨-, dim, -, h⟩ := mem_fulls.mp hl
      exact pair_ne_along hne dim _ h

/-! ### Names -/

theorem Considers.isPlain (h : Considers rank axisCount l) (dim : Nat) :
    Layout.IsPlain axisCount (l.axes dim) := by
  cases h with
  | replicated => exact .none
  | @single d axis _ _ =>
    rw [Layout.axes_ofPairs_singleton]
    split_ifs
    · exact .one axis
    · exact .none
  | @full d _ hmany =>
    rw [Layout.axes_ofPairs_singleton]
    split_ifs
    · exact .all hmany
    · exact .none
  | @pair a b _ _ _ _ =>
    change Layout.IsPlain _ (((Layout.replicated.withAxes a [0]).withAxes b [1]).axes dim)
    rw [Layout.axes_withAxes, Layout.axes_replicated_withAxes]
    split_ifs
    · exact .one 1
    · exact .one 0
    · exact .none

variable {op : Elementwise} {mesh : Mesh} {s s' : Strategy} {l' : Layout}

/-- **The layout of the output is told** from the name of the strategy. -/
theorem eq_of_name (hrank : op.output.rank < wordLimit) (h : op.strategy mesh l = .ok s)
    (h' : op.strategy mesh l' = .ok s') (hl : l ∈ outputLayouts op.output.rank mesh.rank)
    (hl' : l' ∈ outputLayouts op.output.rank mesh.rank) (hname : s.name = s'.name) : l = l' := by
  have hwithin := outputLayouts_within hl
  have hwithin' := outputLayouts_within hl'
  obtain ⟨text, rest, htext, hs⟩ := (of_strategy h).2.2
  obtain ⟨text', rest', htext', hs'⟩ := (of_strategy h').2.2
  have hblank : ∀ {l : Layout} {text : String}, l.Within op.output.rank mesh →
      l.compactSequence op.output.rank = .ok text → ' ' ∉ text.toList := by
    intro l text hl htext
    rw [hl.compactSequence_eq_ok hrank] at htext
    exact Except.ok.inj htext ▸ Layout.blank_notMem_join _
  have hsame : text = text' := by
    rw [hs, hs'] at hname
    exact (eq_of_append_blank (hblank hwithin htext) (hblank hwithin' htext') hname).1
  exact hwithin.eq_of_compactSequence hrank (mem_outputLayouts_iff.mp hl).isPlain
    (mem_outputLayouts_iff.mp hl').isPlain (by rw [htext, htext', hsame])

theorem layouts_injective (op : Elementwise) : Function.Injective op.layouts := by
  intro l l' h
  have hlast := congrArg List.getLast? h
  simp only [layouts, List.getLast?_concat] at hlast
  exact (Prod.mk.inj (Option.some.inj hlast)).2

end Elementwise

end ShardPlan
