import Mathlib.Algebra.BigOperators.Group.Finset.Basic
import ShardPlan.Proofs.Candidate.Values
import ShardPlan.Proofs.Reshard.Validity

/-! # Costs of linear layers

A choice of a linear layer says itself along which axes partial results are summed. It could be told from its
layouts: the output is partial along the axis of the contracted dimension of the input, the gradient of the
weight along that of the batch, and the gradient of the input along that of the features of the weight
(`Family.sumsFollow`). With what a strategy makes of a choice (`costs_of_strategy`), its costs follow from its
layouts alone (`costs_follow_layouts`). -/

namespace ShardPlan

namespace Mesh

/-- The price of summing partial results along the axis of a list that has one axis, and nothing else. -/
def reductionPrice (mesh : Mesh) (bytes : Float) : List Nat → Float
  | [axis] => mesh.collectivePrice .allReduce bytes axis
  | _ => 0.0

end Mesh

namespace Linear

variable {inputLast outputLast axisCount : Nat} {op : Linear} {mesh : Mesh} {c : Choice} {s : Strategy}

/-! ### Sums over partial results -/

theorem sumPrice_eq_reductionPrice (mesh : Mesh) (bytes : Float) (axis : Option Nat) :
    sumPrice mesh bytes axis = mesh.reductionPrice bytes axis.toList := by
  cases axis with
  | none => rfl
  | some axis => rfl

/-- **The sums of a choice are those that its layouts need.** In particular none of these dimensions is split
along two axes. -/
structure SumsFollow (last : Nat) (c : Choice) : Prop where
  output : c.sumOutput.toList = c.input.axes last
  weightGradient : c.sumWeightGradient.toList = if 0 < last then c.input.axes 0 else []
  inputGradient : c.sumInputGradient.toList = c.weight.axes 1

/-- **In every family the sums follow from the layouts.** -/
theorem Family.sumsFollow {last : Nat} (h : Family last last axisCount c) : SumsFollow last c := by
  cases h with
  | replicated => exact ⟨rfl, (ite_self _).symm, rfl⟩
  | @batch name axis hbatch _ =>
    refine ⟨?_, ?_, rfl⟩
    · rw [axes_along_of_ne hbatch.ne]; rfl
    · rw [if_pos hbatch, axes_along_self]; rfl
  | @features name axis _ =>
    refine ⟨rfl, (ite_self _).symm, ?_⟩
    rw [axes_along_self]; rfl
  | @contracted name axis _ =>
    refine ⟨?_, ?_, ?_⟩
    · rw [axes_along_self]; rfl
    · -- the axis splits the first dimension only if that is the last one
      split_ifs with hlast
      · rw [axes_along_of_ne hlast.ne']; rfl
      · rfl
    · rw [axes_along_of_ne Nat.zero_ne_one]; rfl
  | @batchFeatures name a b hbatch _ _ _ =>
    refine ⟨?_, ?_, ?_⟩
    · rw [axes_along_of_ne hbatch.ne]; rfl
    · rw [if_pos hbatch, axes_along_self]; rfl
    · rw [axes_along_self]; rfl
  | @batchContracted name a b hbatch _ _ _ =>
    refine ⟨?_, ?_, ?_⟩
    · rw [axes_along_withAxes_self]; rfl
    · rw [if_pos hbatch, axes_along_withAxes_of_ne hbatch.ne', axes_along_self]; rfl
    · rw [axes_along_of_ne Nat.zero_ne_one]; rfl

theorem SumsFollow.length_le {last : Nat} (h : SumsFollow last c) :
    (c.input.axes last).length ≤ 1 ∧ (c.input.axes 0).length ≤ 1 ∧ (c.weight.axes 1).length ≤ 1 := by
  have hone : ∀ axis : Option Nat, axis.toList.length ≤ 1 := fun axis => by cases axis <;> simp
  refine ⟨h.output ▸ hone _, ?_, h.inputGradient ▸ hone _⟩
  rcases Nat.eq_zero_or_pos last with rfl | hlast
  · exact h.output ▸ hone _
  · have hbatch := h.weightGradient
    rw [if_pos hlast] at hbatch
    exact hbatch ▸ hone _

/-! ### What a strategy makes of a choice -/

/-- The different axes that some layouts use. -/
def axesOf (layouts : List Layout) : Finset Nat := (layouts.flatMap Layout.usedAxes).toFinset

/-- The shards along the axes of a choice are counted along each of its axes once. -/
theorem shardVolume_axes (mesh : Mesh) (c : Choice) :
    mesh.shardVolume c.axes = ∏ axis ∈ axesOf [c.input, c.weight, c.output], mesh.sizeAlong axis := by
  have hsame : c.axes.toFinset = axesOf [c.input, c.weight, c.output] := by
    ext axis
    rw [axesOf, List.mem_toFinset, List.mem_toFinset, Choice.axes, List.mem_eraseDups]
    rfl
  have hnodup : c.axes.Nodup := nodup_eraseDups _
  rw [Mesh.shardVolume, Size.volume_eq_prod, ← hsame, List.prod_toFinset _ hnodup]

/-- The bytes that one device holds of the bias, none if there is no bias. -/
def biasBytes (op : Linear) (l : Layout) (mesh : Mesh) : Checked Float :=
  match op.bias with
  | some bias => bias.localBytes l mesh
  | none => .ok 0.0

theorem costs_of_strategy (h : op.strategy mesh c = .ok s) :
    ∃ inputBytes weightBytes biasBytes outputBytes,
      op.input.localBytes c.input mesh = .ok inputBytes ∧
      op.weight.localBytes c.weight mesh = .ok weightBytes ∧
      op.biasBytes (op.biasLayout c) mesh = .ok biasBytes ∧
      op.output.localBytes c.output mesh = .ok outputBytes ∧
      s.communication.forward = sumPrice mesh outputBytes c.sumOutput ∧
      s.communication.backward = sumPrice mesh (weightBytes + biasBytes) c.sumWeightGradient +
        sumPrice mesh inputBytes c.sumInputGradient ∧
      s.compute.forward = 2.0 * Float.ofNat op.output.shape.prod *
        Float.ofNat (op.weight.shape.head?.getD 1) / Float.ofNat (mesh.shardVolume c.axes) := by
  obtain ⟨elements, helements, h⟩ := bind_eq_ok_iff.mp h
  obtain ⟨shards, hshards, h⟩ := bind_eq_ok_iff.mp h
  obtain ⟨inputBytes, hinput, h⟩ := bind_eq_ok_iff.mp h
  obtain ⟨weightBytes, hweight, h⟩ := bind_eq_ok_iff.mp h
  obtain ⟨outputBytes, houtput, h⟩ := bind_eq_ok_iff.mp h
  have hprod : elements = op.output.shape.prod := by
    rw [Size.volume_of_product helements, Size.volume_eq_prod]
  have hvolume : shards = mesh.shardVolume c.axes := Size.volume_of_product hshards
  subst hprod hvolume
  split at h
  · rename_i bias hbias
    obtain ⟨biasBytes, hbytes, h⟩ := bind_eq_ok_iff.mp h
    have hbytes' : op.biasBytes (op.biasLayout c) mesh = .ok biasBytes := by
      rw [Linear.biasBytes, hbias]
      exact hbytes
    cases h
    exact ⟨inputBytes, weightBytes, biasBytes, outputBytes, hinput, hweight, hbytes', houtput, rfl, rfl, rfl⟩
  · rename_i hbias
    have hbytes : op.biasBytes (op.biasLayout c) mesh = .ok 0.0 := by rw [Linear.biasBytes, hbias]
    cases h
    exact ⟨inputBytes, weightBytes, 0.0, outputBytes, hinput, hweight, hbytes, houtput, rfl, rfl, rfl⟩

/-- **The costs of a strategy of a linear layer follow from its layouts.** If the sizes of a layer can be
counted, all its strategies are computed. The forward pass sums the output along the axis of the contracted
dimension; the backward pass sums the gradients of weight and bias along the axis of the batch, and the gradient
of the input along that of the features. None of these dimensions is split along two axes. The work is shared
among the devices along every axis that a layout uses. -/
theorem costs_follow_layouts (op : Linear) (mesh : Mesh) {rank k n : Nat}
    (hinput : op.input.rank = rank) (houtput : op.output.rank = rank) (hweight : op.weight.shape = [k, n])
    (hinput' : op.input.IsBounded) (hweight' : op.weight.IsBounded)
    (hbias' : ∀ bias ∈ op.bias, bias.IsBounded) (houtput' : op.output.IsBounded) :
    ∃ strategies, (op.generator mesh).generate = .ok strategies ∧ ∀ s ∈ strategies,
      ∃ input weight bias output : Layout,
        s.layouts = [(op.input, input), (op.weight, weight)] ++ (op.bias.toList.map fun b => (b, bias)) ++
          [(op.output, output)] ∧
        (∀ dim, bias.axes dim = if dim = 0 then output.axes (rank - 1) else []) ∧
        (input.axes (rank - 1)).length ≤ 1 ∧ (input.axes 0).length ≤ 1 ∧ (weight.axes 1).length ≤ 1 ∧
        ∃ inputBytes weightBytes biasBytes outputBytes,
          op.input.localBytes input mesh = .ok inputBytes ∧
          op.weight.localBytes weight mesh = .ok weightBytes ∧
          op.biasBytes bias mesh = .ok biasBytes ∧
          op.output.localBytes output mesh = .ok outputBytes ∧
          s.communication.forward = mesh.reductionPrice outputBytes (input.axes (rank - 1)) ∧
          s.communication.backward =
            mesh.reductionPrice (weightBytes + biasBytes) (if 2 ≤ rank then input.axes 0 else []) +
              mesh.reductionPrice inputBytes (weight.axes 1) ∧
          s.compute.forward = 2.0 * Float.ofNat op.output.shape.prod * Float.ofNat k /
            Float.ofNat (∏ axis ∈ axesOf [input, weight, output], mesh.sizeAlong axis) := by
  obtain ⟨strategies, hstrategies⟩ : HasValue (op.generator mesh).generate :=
    generator_hasValue hinput' hweight' hbias' houtput'
  refine ⟨strategies, hstrategies, fun s hs => ?_⟩
  obtain ⟨c, hc, hstrategy⟩ := (mem_of_forall₂ (mapM_eq_ok_iff.mp hstrategies)).1 s hs
  have hlast : lastDim op.input = rank - 1 := by rw [lastDim, hinput]
  have hlast' : lastDim op.output = rank - 1 := by rw [lastDim, houtput]
  rw [hlast, hlast'] at hc
  have hsums : SumsFollow (rank - 1) c := (family_of_mem_choices hc).sumsFollow
  obtain ⟨hone, hbatch, hfeatures⟩ := hsums.length_le
  obtain ⟨inputBytes, weightBytes, biasBytes, outputBytes, hinputBytes, hweightBytes, hbiasBytes,
    houtputBytes, hforward, hbackward, hcompute⟩ := costs_of_strategy hstrategy
  have hbatched : (0 < rank - 1) = (2 ≤ rank) := propext (by omega)
  refine ⟨c.input, c.weight, op.biasLayout c, c.output, layouts_of_strategy hstrategy, fun dim => ?_, hone,
    hbatch, hfeatures, inputBytes, weightBytes, biasBytes, outputBytes, hinputBytes, hweightBytes, hbiasBytes,
    houtputBytes, ?_, ?_, ?_⟩
  · rw [biasLayout, hlast', Layout.axes_ofPairs_singleton]
    simp only [eq_comm]
  · rw [hforward, sumPrice_eq_reductionPrice, hsums.output]
  · rw [hbackward, sumPrice_eq_reductionPrice, sumPrice_eq_reductionPrice, hsums.weightGradient,
      hsums.inputGradient]
    simp only [hbatched]
  · rw [hcompute, hweight, shardVolume_axes]
    rfl

/-- A layer with a bias that makes six features out of four. -/
def widening : Linear where
  input := ⟨"x", .argument, some ⟨[8, 4], .f32⟩, some 0⟩
  weight := .ofParameter "weight" ⟨[4, 6], .f32⟩
  bias := some (.ofParameter "bias" ⟨[6], .f32⟩)
  output := ⟨"y", .result, some ⟨[8, 6], .f32⟩, some 1⟩

theorem widening_bounded : widening.input.IsBounded ∧ widening.weight.IsBounded ∧
    (∀ bias ∈ widening.bias, bias.IsBounded) ∧ widening.output.IsBounded := by
  have hinput : TensorType.IsBounded ⟨[8, 4], .f32⟩ := ⟨by decide, by decide, _, rfl⟩
  have hweight : TensorType.IsBounded ⟨[4, 6], .f32⟩ := ⟨by decide, by decide, _, rfl⟩
  have hbias : TensorType.IsBounded ⟨[6], .f32⟩ := ⟨by decide, by decide, _, rfl⟩
  have houtput : TensorType.IsBounded ⟨[8, 6], .f32⟩ := ⟨by decide, by decide, _, rfl⟩
  refine ⟨hinput.operand rfl, hweight.operand rfl, fun bias hb => ?_, houtput.operand rfl⟩
  cases hb
  exact hbias.operand rfl

/-- The eleven strategies of such a layer on four devices cost what their layouts say. -/
theorem costs_follow_layouts_of_widening : ∃ strategies,
    (widening.generator .square).generate = .ok strategies ∧ strategies.length = 11 ∧ ∀ s ∈ strategies,
      ∃ input weight bias output : Layout,
        s.layouts = [(widening.input, input), (widening.weight, weight)] ++
          (widening.bias.toList.map fun b => (b, bias)) ++ [(widening.output, output)] ∧
        (∀ dim, bias.axes dim = if dim = 0 then output.axes 1 else []) ∧
        (input.axes 1).length ≤ 1 ∧ (input.axes 0).length ≤ 1 ∧ (weight.axes 1).length ≤ 1 ∧
        ∃ inputBytes weightBytes biasBytes outputBytes,
          widening.input.localBytes input .square = .ok inputBytes ∧
          widening.weight.localBytes weight .square = .ok weightBytes ∧
          widening.biasBytes bias .square = .ok biasBytes ∧
          widening.output.localBytes output .square = .ok outputBytes ∧
          s.communication.forward = Mesh.square.reductionPrice outputBytes (input.axes 1) ∧
          s.communication.backward =
            Mesh.square.reductionPrice (weightBytes + biasBytes) (input.axes 0) +
              Mesh.square.reductionPrice inputBytes (weight.axes 1) ∧
          s.compute.forward = 2.0 * Float.ofNat 48 * Float.ofNat 4 /
            Float.ofNat (∏ axis ∈ axesOf [input, weight, output], Mesh.square.sizeAlong axis) := by
  obtain ⟨hinput, hweight, hbias, houtput⟩ := widening_bounded
  obtain ⟨strategies, hstrategies, hcosts⟩ :=
    costs_follow_layouts widening .square rfl rfl rfl hinput hweight hbias houtput
  refine ⟨strategies, hstrategies, ?_, hcosts⟩
  rw [← (mapM_eq_ok_iff.mp hstrategies).length_eq]
  rfl

end Linear

end ShardPlan
