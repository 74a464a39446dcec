import ShardPlan.Proofs.Candidate.Covers
import ShardPlan.Proofs.Layout.Shards

/-! # Layouts of element-wise operations

The layouts considered for an output stay within its rank (`outputLayouts_within`), and so does that of an
input which follows such a layout within the rank of the input (`inputLayout_within`). On every dimension an
input has the axes of the dimension of the output that it is aligned with if both have one size, and no axes
otherwise (`axes_inputLayout`). So an input is cut like the output where it is cut at all: if the layout of
the output fits, that of each input does (`inputLayout_fits`). -/

namespace ShardPlan

namespace Elementwise

variable {K : Type} {mesh : Mesh K} {output input : List Nat} {l : Layout} {rank : Nat}

/-! ### Outputs -/

theorem outputLayouts_within (hl : l ∈ outputLayouts rank mesh.rank) : l.Within rank mesh := by
  have hsingle : ∀ {axis}, axis < mesh.rank → ∀ a ∈ [axis], a < mesh.rank := by
    intro axis haxis a ha
    rwa [List.mem_singleton.mp ha]
  simp only [outputLayouts, List.mem_append, List.mem_singleton, List.mem_flatMap, List.mem_map,
    List.mem_range] at hl
  rcases hl with ((rfl | ⟨dim, hdim, axis, haxis, rfl⟩) | hl) | hl
  · exact .replicated
  · exact .along hdim (hsingle haxis) (List.nodup_singleton axis)
  · split_ifs at hl with hmany
    · obtain ⟨dim, hdim, rfl⟩ := List.mem_map.mp hl
      exact .along (List.mem_range.mp hdim) (fun axis h => List.mem_range.mp h) List.nodup_range
    · exact absurd hl List.not_mem_nil
  · split_ifs at hl with htwo
    · obtain ⟨a, ha, hl⟩ := List.mem_flatMap.mp hl
      obtain ⟨b, hb, rfl⟩ := List.mem_map.mp hl
      have hfirst : (Layout.replicated.withAxes a [0]).Within rank mesh :=
        .along (List.mem_range.mp ha) (hsingle (by omega)) (List.nodup_singleton 0)
      refine hfirst.withAxes (List.mem_range.mp (List.mem_of_mem_filter hb)) (hsingle (by omega))
        (List.nodup_singleton 1) fun axis haxis => ?_
      rw [Layout.mem_usedAxes]
      rintro ⟨d, hd⟩
      rw [Layout.axes_withAxes] at hd
      split_ifs at hd
      · rw [List.mem_singleton] at haxis hd
        omega
      · exact absurd hd List.not_mem_nil
    · exact absurd hl List.not_mem_nil

/-! ### Inputs -/

/-- **The layout of an input follows that of the output** on the dimensions that have one size in both, the
last ones aligned, and replicates the others. -/
theorem axes_inputLayout (output input : List Nat) (l : Layout) (dim : Nat) :
    (inputLayout output input l).axes dim =
      if input[dim]? = output[dim + (output.length - input.length)]? then
        l.axes (dim + (output.length - input.length)) else [] := by
  unfold inputLayout
  generalize output.length - input.length = offset
  -- the dimension of the input that a dimension of the output is kept as
  let rename (d : Nat) : Option Nat :=
    if d < offset then none else if input[d - offset]? = output[d]? then some (d - offset) else none
  have hpairs : (l.partitions.filterMap fun e =>
      if e.1 < offset then none
      else if input[e.1 - offset]? = output[e.1]? then some (e.1 - offset, e.2) else none) =
      l.partitions.filterMap fun e => (rename e.1).map fun d => (d, e.2) := by
    refine List.filterMap_congr fun e _ => ?_
    dsimp only [rename]
    split_ifs <;> rfl
  have hsource : ∀ {d}, rename d = some dim → d = dim + offset := by
    intro d hd
    dsimp only [rename] at hd
    split_ifs at hd
    have := Option.some.inj hd
    omega
  have hrename : rename (dim + offset) = some dim ↔ input[dim]? = output[dim + offset]? := by
    dsimp only [rename]
    rw [if_neg (by omega), Nat.add_sub_cancel]
    split_ifs with heq <;> simp [heq]
  dsimp only
  rw [hpairs, Layout.axes_ofPairs_filterMap l rename _ hsource]
  simp only [hrename]

theorem inputLayout_eq_of_ne (h : l.Within output.length mesh) {dim : Nat}
    (hdim : (inputLayout output input l).axes dim ≠ []) :
    ∃ size, input[dim]? = some size ∧ output[dim + (output.length - input.length)]? = some size ∧
      (inputLayout output input l).axes dim = l.axes (dim + (output.length - input.length)) := by
  rw [axes_inputLayout] at hdim ⊢
  split_ifs at hdim ⊢ with heq
  · have hlt := h.dim_lt hdim
    have hsize := List.getElem?_eq_getElem hlt
    exact ⟨_, heq.trans hsize, hsize, rfl⟩
  · exact absurd rfl hdim

theorem inputLayout_within (h : l.Within output.length mesh) :
    (inputLayout output input l).Within input.length mesh := by
  refine h.of_axes (· + (output.length - input.length)) (fun d d' hd => by simpa using hd)
    fun {dim} hdim => ?_
  obtain ⟨size, hsize, -, haxes⟩ := inputLayout_eq_of_ne h hdim
  exact ⟨(List.getElem?_eq_some_iff.mp hsize).1, haxes⟩

/-- **An input fits if the output does**: it is cut where the output is, and has the same size there. -/
theorem inputLayout_fits {t t' : TensorType} (h : l.Fits t mesh) :
    (inputLayout t.shape t'.shape l).Fits t' mesh := by
  refine Layout.fits_iff_within.mpr ⟨inputLayout_within h.within, fun {dim} hdim => ?_⟩
  obtain ⟨size, hsize, hsize', haxes⟩ := inputLayout_eq_of_ne h.within hdim
  rw [haxes] at hdim ⊢
  obtain ⟨size', hcut, hpos, hdvd⟩ := h.cuts hdim
  cases hsize'.symm.trans hcut
  exact ⟨size, hsize, hpos, hdvd⟩

/-! ### Strategies -/

/-- The layouts of all operands when that of the output is chosen. -/
def layouts (op : Elementwise) (l : Layout) : List (Operand × Layout) :=
  op.inputs.map (fun input => (input, inputLayout op.output.shape input.shape l)) ++ [(op.output, l)]

section Strategies

variable {op : Elementwise} {mesh : Mesh} {l : Layout}

/-- **The strategies of an element-wise operation** differ in the layout that is chosen for the output. -/
theorem layouts_of_generate {strategies : List Strategy}
    (h : (op.generator mesh).generate = .ok strategies) {s : Strategy} (hs : s ∈ strategies) :
    ∃ l : Layout, l.Within op.output.rank mesh ∧ s.layouts = op.layouts l := by
  obtain ⟨l, hl, hstrategy⟩ := (mem_of_forall₂ (mapM_eq_ok_iff.mp h)).1 s hs
  exact ⟨l, outputLayouts_within hl, layouts_of_strategy hstrategy⟩

theorem within_of_mem_layouts (hl : l.Within op.output.rank mesh) {e : Operand × Layout}
    (he : e ∈ op.layouts l) : e.2.Within e.1.rank mesh := by
  rcases List.mem_append.mp he with he | he
  · obtain ⟨input, -, rfl⟩ := List.mem_map.mp he
    exact inputLayout_within hl
  · rw [List.mem_singleton.mp he]
    exact hl

end Strategies

end Elementwise

end ShardPlan
