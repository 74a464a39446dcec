import ShardPlan.Mesh.Description
import ShardPlan.Proofs.Candidate.LinearCosts
import ShardPlan.Proofs.Candidate.OutputLayouts
import ShardPlan.Proofs.Candidate.Selections
import ShardPlan.Proofs.Candidate.Values

/-! # Candidates listed once

No generator lists a candidate twice, under the same name or with the same layouts
(`candidates_listed_once`). This holds on meshes of any number of axes, also where the number of an axis has
several digits. -/

namespace ShardPlan

theorem nodup_map_of_forall₂ {α β γ : Type} {R : α → β → Prop} {g : β → γ} {list : List α} {bs : List β}
    (h : List.Forall₂ R list bs) (hlist : list.Nodup)
    (htell : ∀ a ∈ list, ∀ a' ∈ list, ∀ b b', R a b → R a' b' → g b = g b' → a = a') :
    (bs.map g).Nodup := by
  induction h with
  | nil => exact List.nodup_nil
  | @cons a b list bs hab hrest ih =>
    obtain ⟨hnew, hlist⟩ := List.nodup_cons.mp hlist
    rw [List.map_cons, List.nodup_cons]
    refine ⟨fun hmem => ?_, ih hlist fun a ha a' ha' => ?_⟩
    · obtain ⟨b', hb', heq⟩ := List.mem_map.mp hmem
      obtain ⟨a', ha', hab'⟩ := (mem_of_forall₂ hrest).1 b' hb'
      have hsame : a = a' := htell a (by simp) a' (by simp [ha']) b b' hab hab' heq.symm
      exact hnew (hsame ▸ ha')
    · exact htell a (List.mem_cons_of_mem _ ha) a' (List.mem_cons_of_mem _ ha')

/-! ### Strategies -/

/-- **Strategies that differ**: no two have one name, and no two give the operands the same layouts. -/
structure Differ (strategies : List Strategy) : Prop where
  names : (strategies.map Strategy.name).Nodup
  layouts : (strategies.map Strategy.layouts).Nodup

/-- **No generator lists a candidate twice.** If the sizes of the operands can be counted, all strategies of an
element-wise operation or a linear layer are computed, and no two have one name or the same layouts. Those of
an element-wise operation come from the layouts that are considered for the output, one from each; those of a
linear layer from the selections that are allowed, one from each. -/
theorem candidates_listed_once (mesh : Mesh) :
    (∀ op : Elementwise, (∀ input ∈ op.inputs, input.IsBounded) → op.output.IsBounded →
      ∃ strategies, (op.generator mesh).generate = .ok strategies ∧ Differ strategies ∧
        ∃ outputs : List Layout, outputs.Nodup ∧
          (∀ l, l ∈ outputs ↔ Elementwise.Considers op.output.rank mesh.rank l) ∧
          strategies.map Strategy.layouts = outputs.map op.layouts) ∧
    (∀ op : Linear, op.input.IsBounded → op.weight.IsBounded → (∀ bias ∈ op.bias, bias.IsBounded) →
      op.output.IsBounded →
      ∃ strategies, (op.generator mesh).generate = .ok strategies ∧ Differ strategies ∧
        ∃ selections : List Linear.Selection, selections.Nodup ∧
          (∀ sel, sel ∈ selections ↔ sel.Allowed op.input.rank mesh.rank) ∧
          strategies.map Strategy.layouts = selections.map fun sel =>
            op.layouts (sel.choice (Linear.lastDim op.input) (Linear.lastDim op.output))) := by
  refine ⟨fun op hinputs houtput => ?_, fun op hinput hweight hbias houtput => ?_⟩
  · obtain ⟨strategies, hstrategies⟩ : HasValue (op.generator mesh).generate :=
      Elementwise.generator_hasValue hinputs houtput
    have hlayouts : strategies.map Strategy.layouts =
        (Elementwise.outputLayouts op.output.rank mesh.rank).map op.layouts :=
      map_of_mapM_eq_ok Elementwise.layouts_of_strategy hstrategies
    have hnodup := Elementwise.nodup_outputLayouts op.output.rank mesh.rank
    refine ⟨strategies, hstrategies, ⟨?_, ?_⟩, _, hnodup, fun l => Elementwise.mem_outputLayouts_iff, hlayouts⟩
    · exact nodup_map_of_forall₂ (mapM_eq_ok_iff.mp hstrategies) hnodup fun l hl l' hl' s s' h h' hname =>
        Elementwise.eq_of_name houtput.rank_lt h h' hl hl' hname
    · rw [hlayouts]
      exact hnodup.map op.layouts_injective
  · obtain ⟨strategies, hstrategies⟩ : HasValue (op.generator mesh).generate :=
      Linear.generator_hasValue hinput hweight hbias houtput
    have hchoices : Linear.choices (Linear.lastDim op.input) (Linear.lastDim op.output) mesh.rank = _ :=
      Linear.choices_eq_map op.input.rank (Linear.lastDim op.output) mesh.rank
    have hnodup := Linear.nodup_selections op.input.rank mesh.rank
    have hlayouts : strategies.map Strategy.layouts =
        (Linear.choices (Linear.lastDim op.input) (Linear.lastDim op.output) mesh.rank).map op.layouts :=
      map_of_mapM_eq_ok Linear.layouts_of_strategy hstrategies
    have hnames : strategies.map Strategy.name =
        (Linear.choices (Linear.lastDim op.input) (Linear.lastDim op.output) mesh.rank).map Linear.Choice.name :=
      map_of_mapM_eq_ok (fun h => (Linear.of_strategy h).2.2) hstrategies
    rw [hchoices, List.map_map] at hlayouts hnames
    refine ⟨strategies, hstrategies, ⟨?_, ?_⟩, _, hnodup, fun sel => Linear.mem_selections_iff, hlayouts⟩
    · rw [hnames]
      exact hnodup.map fun sel sel' h => Linear.Selection.name_injective h
    · rw [hlayouts]
      exact hnodup.map_on fun sel hsel sel' hsel' h =>
        (Linear.mem_selections_iff.mp hsel).eq_of_layouts (Linear.mem_selections_iff.mp hsel') h

/-- Two devices along the last of eleven axes. -/
def Mesh.deep : Mesh where
  devices := [0, 1]
  axes := (List.range 11).map fun axis => ⟨defaultAxisName axis, if axis = 10 then 2 else 1, .standard⟩
  size_pos := by decide
  names_nodup := by decide +kernel
  length_devices := by decide
  length_devices_lt := by decide

/-- The sum of two matrices. -/
def Elementwise.adding : Elementwise where
  inputs := [⟨"x", .argument, some ⟨[8, 4], .f32⟩, some 0⟩, ⟨"y", .argument, some ⟨[8, 4], .f32⟩, some 1⟩]
  output := ⟨"z", .result, some ⟨[8, 4], .f32⟩, some 2⟩

theorem Elementwise.adding_bounded :
    (∀ input ∈ adding.inputs, input.IsBounded) ∧ adding.output.IsBounded := by
  have htensor : TensorType.IsBounded ⟨[8, 4], .f32⟩ := ⟨by decide, by decide, _, rfl⟩
  refine ⟨fun input hinput => ?_, htensor.operand rfl⟩
  rcases List.mem_cons.mp hinput with rfl | hinput
  · exact htensor.operand rfl
  · rw [List.mem_singleton.mp hinput]
    exact htensor.operand rfl

/-- On eleven axes an addition has twenty-five strategies and a linear layer two hundred and fifty-four, all of
which differ. The output of the addition is split along axis 10 by one of them, and by none along axis 1 and then
axis 0. -/
theorem candidates_listed_once_of_deep :
    (∃ strategies, (Elementwise.adding.generator .deep).generate = .ok strategies ∧
      strategies.length = 25 ∧ Differ strategies ∧
      (∃ s ∈ strategies, s.layouts = Elementwise.adding.layouts (.ofPairs [(1, [10])])) ∧
      ∀ s ∈ strategies, s.layouts ≠ Elementwise.adding.layouts (.ofPairs [(1, [1, 0])])) ∧
    ∃ strategies, (Linear.widening.generator .deep).generate = .ok strategies ∧
      strategies.length = 254 ∧ Differ strategies := by
  obtain ⟨helementwise, hlinear⟩ := candidates_listed_once .deep
  constructor
  · obtain ⟨hinputs, houtput⟩ := Elementwise.adding_bounded
    obtain ⟨strategies, hstrategies, hdiffer, outputs, -, houtputs, hlayouts⟩ :=
      helementwise .adding hinputs houtput
    have hlength : strategies.length = 25 := (mapM_eq_ok_iff.mp hstrategies).length_eq.symm
    refine ⟨strategies, hstrategies, hlength, hdiffer, ?_, fun s hs heq => ?_⟩
    · have hmem : Layout.ofPairs [(1, [10])] ∈ outputs :=
        (houtputs _).mpr (.single (by decide) (by decide))
      have hmap := List.mem_map_of_mem (f := Elementwise.adding.layouts) hmem
      rw [← hlayouts] at hmap
      exact List.mem_map.mp hmap
    · have hmap : s.layouts ∈ outputs.map Elementwise.adding.layouts :=
        hlayouts ▸ List.mem_map_of_mem hs
      obtain ⟨l, hl, hsame⟩ := List.mem_map.mp hmap
      have hplain := ((houtputs l).mp hl).isPlain 1
      rw [Elementwise.adding.layouts_injective (hsame.trans heq)] at hplain
      have haxes : Layout.IsPlain 11 [1, 0] := hplain
      cases haxes
  · obtain ⟨hinput, hweight, hbias, houtput⟩ := Linear.widening_bounded
    obtain ⟨strategies, hstrategies, hdiffer, -⟩ := hlinear .widening hinput hweight hbias houtput
    have hcount : (Linear.choices 1 1 11).length = 254 := by decide +kernel
    have hlength : strategies.length = 254 := (mapM_eq_ok_iff.mp hstrategies).length_eq.symm.trans hcount
    exact ⟨strategies, hstrategies, hlength, hdiffer⟩

end ShardPlan
