import ShardPlan.Proofs.Planning.Computes

/-! # Element-wise functions

A candidate of an element-wise function is determined by the layout of its result, which every argument
follows. The arguments fit whenever the result does, so whether a candidate is committed depends on the result
alone (`Elementwise.resultFits_iff`), and one that is left out does not cut a dimension into equal shards
(`Elementwise.exists_notDivisible`). -/

namespace ShardPlan

/-- The layout of the result of a strategy fits a tensor. -/
def Strategy.resultFits (t : TensorType) (mesh : Mesh) (s : Strategy) : Bool :=
  s.result?.any fun e => e.2.violation? t mesh = .ok none

/-! ### Candidates -/

namespace Elementwise

variable {site : Site} {t : TensorType} {inputs : List Operand} {s : Strategy} {l : Layout}

section Candidate

variable (hinputs : List.Forall₂ site.Feeds site.node.args inputs) (ht : site.node.tensor = some t)
  (hlayouts : s.layouts = layouts ⟨inputs, .ofResult site.node⟩ l)
include hlayouts

include hinputs in
theorem result?_eq : s.result? = some (.ofResult site.node, l) := by
  have hnone : (inputs.map fun input => (input, inputLayout (Operand.ofResult site.node).shape
      input.shape l)).find? (fun e => e.1.role == .result) = none := by
    refine List.find?_eq_none.mpr fun e he => ?_
    obtain ⟨input, hinput, rfl⟩ := List.mem_map.mp he
    obtain ⟨id, -, hfeeds⟩ := (mem_of_forall₂ hinputs).1 input hinput
    simp [hfeeds.role]
  rw [Strategy.result?, Strategy.find?, hlayouts, layouts, List.find?_append, hnone]
  rfl

include ht

theorem misfit?_eq_none_iff : site.misfit? s = .ok none ↔ l.violation? t site.mesh = .ok none := by
  have htensor : (Operand.ofResult site.node).tensor = some t := ht
  rw [Site.misfit?_eq_none_iff, hlayouts]
  constructor
  · intro h
    exact h (.ofResult site.node, l) (List.mem_append_right _ (by simp)) t ht
  · intro hfit e he t' ht'
    rw [Layout.violation?_eq_none_iff] at hfit ⊢
    rcases List.mem_append.mp he with he | he
    · obtain ⟨input, -, rfl⟩ := List.mem_map.mp he
      rw [Operand.shape_eq htensor, Operand.shape_eq ht']
      exact inputLayout_fits hfit
    · rw [List.mem_singleton.mp he] at ht' ⊢
      cases ht.symm.trans ht'
      exact hfit

include hinputs in
theorem resultFits_iff : s.resultFits t site.mesh = true ↔ site.misfit? s = .ok none := by
  rw [Strategy.resultFits, result?_eq hinputs hlayouts, Option.any_some, decide_eq_true_iff,
    misfit?_eq_none_iff ht hlayouts]

/-- **Why a candidate is left out**: one of its operands is not cut into equal shards. -/
theorem exists_notDivisible (hl : l.Within t.rank site.mesh) {refusal : Refusal}
    (h : site.misfit? s = .ok (some refusal)) :
    ∃ e ∈ s.layouts, ∃ t' dim size shards, e.1.tensor = some t' ∧
      e.2.violation? t' site.mesh = .ok (some (.notDivisible dim size shards)) ∧
        refusal = .misfit site.node.label e.1.name e.2 t'.shape (.notDivisible dim size shards) := by
  have htensor : (Operand.ofResult site.node).tensor = some t := ht
  obtain ⟨e, he, t', violation, ht', hviolation, rfl⟩ := Site.findMisfit_eq_some h
  have hwithin : e.2.Within e.1.rank site.mesh := by
    rw [hlayouts] at he
    rw [← Operand.rank_eq htensor] at hl
    exact within_of_mem_layouts hl he
  rw [Operand.rank_eq ht'] at hwithin
  rcases hwithin.violation?_eq with hnone | ⟨dim, size, -, hsome⟩
  · cases hnone.symm.trans hviolation
  · cases hsome.symm.trans hviolation
    exact ⟨e, he, t', dim, size, _, ht', hsome, rfl⟩

end Candidate

end Elementwise

/-! ### Registrations -/

/-- **An element-wise function loses exactly the layouts that its result cannot take.** In every candidate the
layout of an argument follows that of the result on the dimensions that have one size in both, the last ones
aligned, and replicates the others. A registration without prices commits the candidates in which the layout
of the result fits, in the order in which they were generated, and refuses each other one because a dimension
is not cut into equal shards. -/
theorem elementwise_registers (site : Site)
    (hcount : site.node.args.length = 1 ∨ site.node.args.length = 2) {inputs : List Operand}
    (hinputs : List.Forall₂ site.Feeds site.node.args inputs) (hbounded : ∀ o ∈ inputs, o.IsBounded)
    {t : TensorType} (ht : site.node.tensor = some t) (htbounded : t.IsBounded) :
    ∃ handler strategies rejected, Handler.elementwise site = .ok handler ∧
      handler.candidates = .ok strategies ∧
      (∀ s ∈ strategies, ∃ (l : Layout) (follow : Operand → Layout),
        s.layouts = inputs.map (fun o => (o, follow o)) ++ [(.ofResult site.node, l)] ∧
          ∀ o dim, (follow o).axes dim =
            if o.shape[dim]? = t.shape[dim + (t.rank - o.rank)]? then l.axes (dim + (t.rank - o.rank))
            else []) ∧
      List.Forall₂ (fun s refusal => ∃ e ∈ s.layouts, ∃ t' dim size shards, e.1.tensor = some t' ∧
          e.2.violation? t' site.mesh = .ok (some (.notDivisible dim size shards)) ∧
            refusal = .misfit site.node.label e.1.name e.2 t'.shape (.notDivisible dim size shards))
        (strategies.filter fun s => !s.resultFits t site.mesh) rejected ∧
      ∀ logged oracle published diary, ∃ diary',
        (register (.live logged oracle) site published handler false).run.run diary =
          (.ok ⟨⟨site.node.id, strategies.filter (Strategy.resultFits t site.mesh)⟩, rejected⟩,
            diary') := by
  have htyped : site.node.tensor.isSome = true := by rw [ht]; rfl
  have htensor : (Operand.ofResult site.node).tensor = some t := ht
  have hresult : (Operand.ofResult site.node).IsBounded := fun t' ht' => by
    cases ht.symm.trans ht'
    exact htbounded
  obtain ⟨handler, hhandler⟩ : HasValue (Handler.elementwise site) := .ok _
  have hcomputes := Handler.elementwise_computes hhandler hcount hinputs hbounded htyped hresult
  let op : Elementwise := ⟨inputs, .ofResult site.node⟩
  obtain ⟨strategies, hstrategies⟩ : HasValue (op.generator site.mesh).generate :=
    Elementwise.generator_hasValue hbounded hresult
  have hcandidates : handler.candidates = .ok strategies :=
    (Handler.elementwise_candidates_iff hhandler hcount hinputs htyped).mpr hstrategies
  have hlayouts : ∀ s ∈ strategies, ∃ l : Layout, l.Within t.rank site.mesh ∧
      s.layouts = op.layouts l := by
    rw [← Operand.rank_eq htensor]
    exact fun s hs => Elementwise.layouts_of_generate hstrategies hs
  have hfits : ∀ s ∈ strategies, s.resultFits t site.mesh = (site.refusal? s).isNone := by
    intro s hs
    obtain ⟨l, -, hl⟩ := hlayouts s hs
    rw [Bool.eq_iff_iff, Elementwise.resultFits_iff hinputs ht hl, Option.isNone_iff_eq_none,
      refusal?_eq_none_iff]
  refine ⟨handler, strategies, strategies.filterMap site.refusal?, hhandler, hcandidates,
    fun s hs => ?_, ?_, fun logged oracle published diary => ?_⟩
  · obtain ⟨l, -, hl⟩ := hlayouts s hs
    refine ⟨l, fun o => Elementwise.inputLayout t.shape o.shape l, ?_,
      fun o dim => Elementwise.axes_inputLayout t.shape o.shape l dim⟩
    rw [hl, Elementwise.layouts, Operand.shape_eq htensor]
  · have hrefused : (strategies.filter fun s => !s.resultFits t site.mesh) =
        strategies.filter fun s => (site.refusal? s).isSome := by
      refine List.filter_congr fun s hs => ?_
      rw [hfits s hs, Option.not_isNone]
    rw [hrefused]
    refine (forall₂_filterMap strategies).imp fun s refusal h => ?_
    obtain ⟨l, hl, hlayout⟩ := hlayouts s h.1
    exact Elementwise.exists_notDivisible ht hlayout hl (refusal?_eq_some_iff.mp h.2)
  · rcases hrun : (register (.live logged oracle) site published handler false).run.run diary with
      ⟨o, diary'⟩
    have hend : CanEnd (register (.live logged oracle) site published handler false) o :=
      ⟨diary, diary', hrun⟩
    rw [register_unpriced_eq (Session.live_canTell logged oracle) hcomputes hcandidates hend,
      List.filter_congr hfits]
    exact ⟨diary', rfl⟩

/-- A sum that repeats its second argument for every row of the first. -/
def Site.broadcasting : Site where
  graph := {
    nodes := [⟨0, "x", .input, [], [2], some ⟨[6, 4], .f32⟩⟩,
      ⟨1, "y", .input, [], [2], some ⟨[4], .f32⟩⟩,
      ⟨2, "s", .function "add", [0, 1], [], some ⟨[6, 4], .f32⟩⟩]
    owner := none
    map_id_nodes := rfl
    args_lt := by decide }
  node := ⟨2, "s", .function "add", [0, 1], [], some ⟨[6, 4], .f32⟩⟩
  mesh := .square

/-- The arguments of the sum. -/
def Site.broadcastInputs : List Operand :=
  [.ofArgument ⟨0, "x", .input, [], [2], some ⟨[6, 4], .f32⟩⟩,
    .ofArgument ⟨1, "y", .input, [], [2], some ⟨[4], .f32⟩⟩]

theorem Site.broadcasting_feeds :
    List.Forall₂ Site.broadcasting.Feeds Site.broadcasting.node.args Site.broadcastInputs :=
  .cons ⟨_, rfl, rfl, rfl⟩ (.cons ⟨_, rfl, rfl, rfl⟩ .nil)

theorem Site.broadcastInputs_bounded : ∀ o ∈ Site.broadcastInputs, o.IsBounded := by
  have hx : TensorType.IsBounded ⟨[6, 4], .f32⟩ := ⟨by decide, by decide, _, rfl⟩
  have hy : TensorType.IsBounded ⟨[4], .f32⟩ := ⟨by decide, by decide, _, rfl⟩
  exact List.forall_mem_cons.mpr ⟨hx.operand rfl, List.forall_mem_singleton.mpr (hy.operand rfl)⟩

/-- Six rows are not split along both axes of four devices; the other eight layouts are committed. -/
theorem elementwise_registers_of_broadcasting : ∃ handler strategies rejected,
    Handler.elementwise .broadcasting = .ok handler ∧ handler.candidates = .ok strategies ∧
      strategies.length = 9 ∧
      List.Forall₂ (fun s refusal => ∃ e ∈ s.layouts, ∃ t' dim size shards, e.1.tensor = some t' ∧
          e.2.violation? t' .square = .ok (some (.notDivisible dim size shards)) ∧
            refusal = Refusal.misfit Site.broadcasting.node.label e.1.name e.2 t'.shape
              (.notDivisible dim size shards))
        (strategies.filter fun s => !s.resultFits ⟨[6, 4], .f32⟩ .square) rejected ∧
      ∃ diary', (register (.live true (.constant .zero)) .broadcasting .empty handler false).run.run {} =
        (.ok ⟨⟨2, strategies.filter (Strategy.resultFits ⟨[6, 4], .f32⟩ .square)⟩, rejected⟩,
          diary') := by
  obtain ⟨handler, strategies, rejected, hhandler, hcandidates, -, hrejected, hruns⟩ :=
    elementwise_registers .broadcasting (.inr rfl) Site.broadcasting_feeds Site.broadcastInputs_bounded
      (t := ⟨[6, 4], .f32⟩) rfl ⟨by decide, by decide, _, rfl⟩
  have hcount : ∃ listed, handler.candidates = .ok listed ∧ listed.length = 9 := by
    cases hhandler
    exact ⟨_, rfl, rfl⟩
  obtain ⟨listed, hlisted, hlength⟩ := hcount
  cases hcandidates.symm.trans hlisted
  exact ⟨handler, strategies, rejected, hhandler, hcandidates, hlength, hrejected,
    hruns true (.constant .zero) .empty {}⟩

end ShardPlan
