import ShardPlan.Proofs.Candidate.Covers
import ShardPlan.Proofs.Layout.Shards

/-! # Layouts of linear layers

The choices of a linear layer come in six families (`Family`, `Combines`), which differ in what an axis
splits: nothing, the batch, the features of the output or the contracted dimension, or the batch together
with one of the other two. In each of them the layouts stay within the ranks of the operands
(`Combines.within_input`, `Combines.within_weight`, `Combines.within_output`) and go together
(`Combines.aligned`). -/

namespace ShardPlan

namespace Linear

/-- The layout that splits one dimension along one axis. -/
def along (dim axis : Nat) : Layout := Layout.replicated.withAxes dim [axis]

theorem axes_along (dim axis d : Nat) : (along dim axis).axes d = if dim = d then [axis] else [] := by
  rw [along, Layout.axes_withAxes, Layout.axes_replicated]

theorem axes_along_self (dim axis : Nat) : (along dim axis).axes dim = [axis] := by
  rw [axes_along, if_pos rfl]

theorem axes_along_of_ne {dim d : Nat} (h : dim ≠ d) (axis : Nat) : (along dim axis).axes d = [] := by
  rw [axes_along, if_neg h]

theorem axes_along_withAxes_self (dim dim' a b : Nat) : ((along dim a).withAxes dim' [b]).axes dim' = [b] := by
  rw [Layout.axes_withAxes, if_pos rfl]

theorem axes_along_withAxes_of_ne {dim dim' d : Nat} (h : dim' ≠ d) (a b : Nat) :
    ((along dim a).withAxes dim' [b]).axes d = (along dim a).axes d := by
  rw [Layout.axes_withAxes, if_neg h]

theorem mem_usedAxes_along {dim axis a : Nat} : a ∈ (along dim axis).usedAxes ↔ a = axis := by
  simp [Layout.mem_usedAxes, axes_along]

theorem along_within {K : Type} {mesh : Mesh K} {dim axis rank : Nat} (hdim : dim < rank)
    (haxis : axis < mesh.rank) : (along dim axis).Within rank mesh := by
  refine .along hdim (fun a ha => ?_) (List.nodup_singleton axis)
  rwa [List.mem_singleton.mp ha]

theorem along_withAxes_within {K : Type} {mesh : Mesh K} {dim dim' a b rank : Nat} (hdim : dim < rank)
    (hdim' : dim' < rank) (ha : a < mesh.rank) (hb : b < mesh.rank) (hne : a ≠ b) :
    ((along dim a).withAxes dim' [b]).Within rank mesh := by
  refine (along_within hdim ha).withAxes hdim' (fun axis haxis => ?_) (List.nodup_singleton b)
    fun axis haxis => ?_
  · rwa [List.mem_singleton.mp haxis]
  · rw [List.mem_singleton.mp haxis, mem_usedAxes_along]
    exact hne.symm

/-! ### The families of choices -/

/-- **The layouts of the input, the weight and the output that a choice combines**, family by family. The
weight has the contracted dimension first. -/
inductive Combines (inputLast outputLast axisCount : Nat) : Layout → Layout → Layout → Prop
  | replicated : Combines inputLast outputLast axisCount .replicated .replicated .replicated
  | batch {axis : Nat} (hbatch : 0 < inputLast) (haxis : axis < axisCount) :
      Combines inputLast outputLast axisCount (along 0 axis) .replicated (along 0 axis)
  | features {axis : Nat} (haxis : axis < axisCount) :
      Combines inputLast outputLast axisCount .replicated (along 1 axis) (along outputLast axis)
  | contracted {axis : Nat} (haxis : axis < axisCount) :
      Combines inputLast outputLast axisCount (along inputLast axis) (along 0 axis) .replicated
  | batchFeatures {a b : Nat} (hbatch : 0 < inputLast) (ha : a < axisCount) (hb : b < axisCount)
      (hne : a ≠ b) : Combines inputLast outputLast axisCount (along 0 a) (along 1 b)
        ((along 0 a).withAxes outputLast [b])
  | batchContracted {a b : Nat} (hbatch : 0 < inputLast) (ha : a < axisCount) (hb : b < axisCount)
      (hne : a ≠ b) : Combines inputLast outputLast axisCount
        ((along 0 a).withAxes inputLast [b]) (along 0 b) (along 0 a)

/-- **The choices themselves**, family by family: the layouts that a choice combines and the axes along which
it says that partial results are summed. -/
inductive Family (inputLast outputLast axisCount : Nat) : Choice → Prop
  | replicated {name : String} : Family inputLast outputLast axisCount { name }
  | batch {name : String} {axis : Nat} (hbatch : 0 < inputLast) (haxis : axis < axisCount) :
      Family inputLast outputLast axisCount
        { name, input := along 0 axis, output := along 0 axis, sumWeightGradient := some axis }
  | features {name : String} {axis : Nat} (haxis : axis < axisCount) :
      Family inputLast outputLast axisCount
        { name, weight := along 1 axis, output := along outputLast axis, sumInputGradient := some axis }
  | contracted {name : String} {axis : Nat} (haxis : axis < axisCount) :
      Family inputLast outputLast axisCount
        { name, input := along inputLast axis, weight := along 0 axis, sumOutput := some axis }
  | batchFeatures {name : String} {a b : Nat} (hbatch : 0 < inputLast) (ha : a < axisCount)
      (hb : b < axisCount) (hne : a ≠ b) : Family inputLast outputLast axisCount
        { name
          input := along 0 a
          weight := along 1 b
          output := (along 0 a).withAxes outputLast [b]
          sumWeightGradient := some a
          sumInputGradient := some b }
  | batchContracted {name : String} {a b : Nat} (hbatch : 0 < inputLast) (ha : a < axisCount)
      (hb : b < axisCount) (hne : a ≠ b) : Family inputLast outputLast axisCount
        { name
          input := (along 0 a).withAxes inputLast [b]
          weight := along 0 b
          output := along 0 a
          sumOutput := some b
          sumWeightGradient := some a }

variable {inputLast outputLast axisCount : Nat}

theorem Family.combines {c : Choice} (h : Family inputLast outputLast axisCount c) :
    Combines inputLast outputLast axisCount c.input c.weight c.output := by
  cases h with
  | replicated => exact .replicated
  | batch hbatch haxis => exact .batch hbatch haxis
  | features haxis => exact .features haxis
  | contracted haxis => exact .contracted haxis
  | batchFeatures hbatch ha hb hne => exact .batchFeatures hbatch ha hb hne
  | batchContracted hbatch ha hb hne => exact .batchContracted hbatch ha hb hne

theorem family_of_mem_singleChoices {axis : Nat} (haxis : axis < axisCount) {c : Choice}
    (hc : c ∈ singleChoices inputLast outputLast axis) : Family inputLast outputLast axisCount c := by
  rcases List.mem_append.mp hc with hc | hc
  · split_ifs at hc with hbatch
    · rw [List.mem_singleton.mp hc]
      exact .batch hbatch haxis
    · exact absurd hc List.not_mem_nil
  · rcases List.mem_cons.mp hc with rfl | hc
    · exact .features haxis
    · rw [List.mem_singleton.mp hc]
      exact .contracted haxis

theorem family_of_mem_doubleChoices {a b : Nat} (hbatch : 0 < inputLast) (ha : a < axisCount)
    (hb : b < axisCount) (hne : a ≠ b) {c : Choice}
    (hc : c ∈ doubleChoices inputLast outputLast a b) : Family inputLast outputLast axisCount c := by
  rcases List.mem_cons.mp hc with rfl | hc
  · exact .batchFeatures hbatch ha hb hne
  · rw [List.mem_singleton.mp hc]
    exact .batchContracted hbatch ha hb hne

/-- **Every choice is of one of the families.** -/
theorem family_of_mem_choices {c : Choice} (hc : c ∈ choices inputLast outputLast axisCount) :
    Family inputLast outputLast axisCount c := by
  rcases List.mem_append.mp hc with hc | hc
  · rcases List.mem_append.mp hc with hc | hc
    · rw [List.mem_singleton.mp hc]
      exact .replicated
    · obtain ⟨axis, haxis, hc⟩ := List.mem_flatMap.mp hc
      exact family_of_mem_singleChoices (List.mem_range.mp haxis) hc
  · split_ifs at hc with hbatch
    · obtain ⟨a, ha, hc⟩ := List.mem_flatMap.mp hc
      obtain ⟨b, hb, hc⟩ := List.mem_flatMap.mp hc
      obtain ⟨hb, hne⟩ := List.mem_filter.mp hb
      have hne : a ≠ b := (bne_iff_ne.mp hne).symm
      exact family_of_mem_doubleChoices hbatch (List.mem_range.mp ha) (List.mem_range.mp hb) hne hc
    · exact absurd hc List.not_mem_nil

theorem combines_of_mem_choices {c : Choice} (hc : c ∈ choices inputLast outputLast axisCount) :
    Combines inputLast outputLast axisCount c.input c.weight c.output :=
  (family_of_mem_choices hc).combines

namespace Combines

/-! ### Ranks -/

section Within

variable {K : Type} {mesh : Mesh K} {input weight output : Layout}
  (h : Combines inputLast outputLast mesh.rank input weight output)
include h

theorem within_input : input.Within (inputLast + 1) mesh := by
  cases h with
  | replicated => exact .replicated
  | batch _ haxis => exact along_within (by omega) haxis
  | features _ => exact .replicated
  | contracted haxis => exact along_within (by omega) haxis
  | batchFeatures _ ha _ _ => exact along_within (by omega) ha
  | batchContracted _ ha hb hne => exact along_withAxes_within (by omega) (by omega) ha hb hne

theorem within_weight : weight.Within 2 mesh := by
  cases h with
  | replicated => exact .replicated
  | batch _ _ => exact .replicated
  | features haxis => exact along_within (by omega) haxis
  | contracted haxis => exact along_within (by omega) haxis
  | batchFeatures _ _ hb _ => exact along_within (by omega) hb
  | batchContracted _ _ hb _ => exact along_within (by omega) hb

theorem within_output : output.Within (outputLast + 1) mesh := by
  cases h with
  | replicated => exact .replicated
  | batch _ haxis => exact along_within (by omega) haxis
  | features haxis => exact along_within (by omega) haxis
  | contracted _ => exact .replicated
  | batchFeatures _ ha hb hne => exact along_withAxes_within (by omega) (by omega) ha hb hne
  | batchContracted _ ha _ _ => exact along_within (by omega) ha

end Within

end Combines

/-! ### Layouts that go together -/

/-- **The layouts of a linear layer go together** when the last dimension of the input and of the output is
`last` and the weight has the contracted dimension first: the contracted dimension is split alike on both
sides, the features of the output as those of the weight, and the batch as that of the input; and what splits
the contracted dimension does not split the output. -/
structure Aligned (last : Nat) (input weight output : Layout) : Prop where
  contracted : weight.axes 0 = input.axes last
  features : weight.axes 1 = output.axes last
  batch : ∀ {dim}, dim < last → output.axes dim = input.axes dim
  disjoint : ∀ {axis}, axis ∈ input.axes last → axis ∉ output.usedAxes

variable {last : Nat} {input weight output : Layout}

/-- **In every family the layouts go together.** -/
theorem Combines.aligned (h : Combines last last axisCount input weight output) :
    Aligned last input weight output := by
  cases h with
  | replicated => exact ⟨rfl, rfl, fun _ => rfl, nofun⟩
  | @batch axis hbatch _ =>
    have hlast : (along 0 axis).axes last = [] := axes_along_of_ne hbatch.ne axis
    refine ⟨?_, ?_, fun _ => rfl, ?_⟩
    · rw [hlast]; rfl
    · rw [hlast]; rfl
    · rw [hlast]; exact nofun
  | @features axis _ =>
    refine ⟨?_, ?_, fun {dim} hdim => ?_, nofun⟩
    · rw [axes_along_of_ne Nat.one_ne_zero]; rfl
    · rw [axes_along_self, axes_along_self]
    · rw [axes_along_of_ne hdim.ne']; rfl
  | @contracted axis _ =>
    refine ⟨?_, ?_, fun {dim} hdim => ?_, fun _ => List.not_mem_nil⟩
    · rw [axes_along_self, axes_along_self]
    · rw [axes_along_of_ne Nat.zero_ne_one]; rfl
    · rw [axes_along_of_ne hdim.ne']; rfl
  | @batchFeatures a b hbatch _ _ _ =>
    have hlast : (along 0 a).axes last = [] := axes_along_of_ne hbatch.ne a
    refine ⟨?_, ?_, fun {dim} hdim => ?_, ?_⟩
    · rw [hlast, axes_along_of_ne Nat.one_ne_zero]
    · rw [axes_along_withAxes_self, axes_along_self]
    · rw [axes_along_withAxes_of_ne hdim.ne']
    · rw [hlast]; exact nofun
  | @batchContracted a b hbatch _ _ hne =>
    have hlast : (along 0 a).axes last = [] := axes_along_of_ne hbatch.ne a
    refine ⟨?_, ?_, fun {dim} hdim => ?_, fun {axis} haxis => ?_⟩
    · rw [axes_along_withAxes_self, axes_along_self]
    · rw [hlast, axes_along_of_ne Nat.zero_ne_one]
    · rw [axes_along_withAxes_of_ne hdim.ne']
    · rw [axes_along_withAxes_self, List.mem_singleton] at haxis
      rw [mem_usedAxes_along, haxis]
      exact hne.symm

end Linear

end ShardPlan
