import ShardPlan.Proofs.Candidate.Values
import ShardPlan.Proofs.Planning.LinearLayers
import ShardPlan.Proofs.Planning.Sessions

/-! # Handlers compute their candidates

A handler computes its candidates if it has no way to fail and the dimensions that their layouts split can be
counted (`Handler.Computes`). So does every handler of this library once its operands are there, if the sizes
of their tensors can be counted. -/

namespace ShardPlan

namespace Handler

variable {site : Site} {handler : Handler}

/-- **A handler that computes its candidates**, whether they fit or not. -/
structure Computes (handler : Handler) (mesh : Mesh) : Prop where
  not_fails : ∀ e, ¬ handler.Fails e
  isCountable : handler.IsCountable mesh

theorem Computes.of_generator {mesh : Mesh} {g : Generator} (hgen : handler.generators = .ok [g])
    (hrefine : ∀ s, handler.refine s = .ok [s]) (hvalue : HasValue g.generate)
    (hcountable : ∀ {strategies}, g.generate = .ok strategies →
      ∀ s ∈ strategies, ∀ e ∈ s.layouts, e.2.IsCountable mesh) : handler.Computes mesh :=
  ⟨fun _ => Handler.not_fails hgen hvalue fun _ s _ => ⟨[s], hrefine s⟩,
    fun hcandidates => hcountable ((candidates_of_generator hgen hrefine).mp hcandidates)⟩

/-! ### Inputs and outputs of the graph -/

theorem isCountable_of_isReplicated {mesh : Mesh} {s : Strategy} (h : s.IsReplicated)
    {e : Operand × Layout} (he : e ∈ s.layouts) : e.2.IsCountable mesh := by
  rw [h e he]
  exact ⟨0, by decide, .replicated⟩

theorem input_computes (h : input site = .ok handler) (htyped : site.node.tensor.isSome = true)
    (hresult : (Operand.ofResult site.node).IsBounded) : handler.Computes site.mesh := by
  have hgen := input_generators h htyped
  cases h
  refine .of_generator hgen (fun _ => rfl) (Boundary.inputGenerator_hasValue hresult) ?_
  intro strategies hstrategies s hs e he
  exact isCountable_of_isReplicated (Boundary.isReplicated_of_inputGenerator hstrategies s hs) he

theorem output_computes (h : output site = .ok handler) {inputs : List Operand}
    (hinputs : List.Forall₂ site.Feeds site.node.args inputs)
    (hvalue : HasValue (Boundary.outputGenerator site.mesh inputs).generate) :
    handler.Computes site.mesh := by
  have hgen := output_generators h hinputs
  cases h
  refine .of_generator hgen (fun _ => rfl) hvalue ?_
  intro strategies hstrategies s hs e he
  exact isCountable_of_isReplicated (Boundary.isReplicated_of_outputGenerator hstrategies s hs) he

/-! ### Element-wise functions -/

theorem elementwise_candidates_iff (h : elementwise site = .ok handler)
    (hcount : site.node.args.length = 1 ∨ site.node.args.length = 2) {inputs : List Operand}
    (hinputs : List.Forall₂ site.Feeds site.node.args inputs)
    (htyped : site.node.tensor.isSome = true) {strategies : List Strategy} :
    handler.candidates = .ok strategies ↔
      ((⟨inputs, .ofResult site.node⟩ : Elementwise).generator site.mesh).generate =
        .ok strategies := by
  have hgen := elementwise_generators h hcount hinputs htyped
  cases h
  exact candidates_of_generator hgen fun _ => rfl

theorem elementwise_computes (h : elementwise site = .ok handler)
    (hcount : site.node.args.length = 1 ∨ site.node.args.length = 2) {inputs : List Operand}
    (hinputs : List.Forall₂ site.Feeds site.node.args inputs) (hbounded : ∀ o ∈ inputs, o.IsBounded)
    (htyped : site.node.tensor.isSome = true) (hresult : (Operand.ofResult site.node).IsBounded) :
    handler.Computes site.mesh := by
  have hgen := elementwise_generators h hcount hinputs htyped
  cases h
  refine .of_generator hgen (fun _ => rfl) (Elementwise.generator_hasValue hbounded hresult) ?_
  intro strategies hstrategies s hs e he
  obtain ⟨l, hl, hlayouts⟩ := Elementwise.layouts_of_generate hstrategies hs
  rw [hlayouts] at he
  refine ⟨e.1.rank, Operand.IsBounded.rank_lt ?_, Elementwise.within_of_mem_layouts hl he⟩
  rcases List.mem_append.mp he with he | he
  · obtain ⟨input, hinput, rfl⟩ := List.mem_map.mp he
    exact hbounded input hinput
  · rw [List.mem_singleton.mp he]
    exact hresult

/-! ### Linear layers -/

theorem lastDim_succ_lt {o : Operand} (h : o.IsBounded) : Linear.lastDim o + 1 < wordLimit := by
  have hrank := h.rank_lt
  have htwo : 2 < wordLimit := by decide
  unfold Linear.lastDim
  omega

theorem isCountable_of_mem_layerLayouts {m : ModuleTree} {i : Operand} {w : TensorType}
    (hi : i.IsBounded) (hresult : (Operand.ofResult site.node).IsBounded) {input weight output : Layout}
    (hc : Linear.Combines (Linear.lastDim i) (Linear.lastDim (.ofResult site.node)) site.mesh.rank
      input weight output) {dim : Nat} {e : Operand × Layout}
    (he : e ∈ layerLayouts site m i w input (weight.transposed 0 1) (.ofPairs [(0, output.axes dim)])
      output) : e.2.IsCountable site.mesh := by
  have htwo : 2 < wordLimit := by decide
  rcases List.mem_append.mp he with he | he
  · rcases List.mem_append.mp he with he | he
    · rcases List.mem_cons.mp he with rfl | he
      · exact ⟨_, lastDim_succ_lt hi, hc.within_input⟩
      · rw [List.mem_singleton.mp he]
        exact ⟨2, htwo, hc.within_weight.transposed (by omega) (by omega)⟩
    · obtain ⟨b, -, rfl⟩ := List.mem_map.mp he
      exact ⟨1, by omega, Linear.ofPairs_within hc.within_output dim⟩
  · rw [List.mem_singleton.mp he]
    exact ⟨_, lastDim_succ_lt hresult, hc.within_output⟩

theorem layer_computes {m : ModuleTree} {first : Nat} {i : Operand} {w : TensorType}
    (hfirst : site.node.args[0]? = some first) (hfeeds : site.Feeds first i) (hi : i.IsBounded)
    (hw : m.parameters.get? "weight" = some w) (hrank : w.rank = 2) (hweight : w.IsBounded)
    (hbias : ∀ b ∈ bias? m, b.IsBounded) (htyped : site.node.tensor.isSome = true)
    (hresult : (Operand.ofResult site.node).IsBounded) : (layer site m).Computes site.mesh := by
  obtain ⟨w', hw'⟩ := exists_transposed hrank
  have hgen := layer_generators hfirst hfeeds hw hrank hw' htyped
  have hbounded : (Operand.ofParameter "weight" w').IsBounded := (hweight.transposed hrank hw').operand rfl
  refine ⟨fun e => not_fails hgen (Linear.generator_hasValue hi hbounded hbias hresult) ?_, ?_⟩
  · intro strategies hstrategies s hs
    obtain ⟨c, -, hc⟩ := (mem_of_forall₂ (mapM_eq_ok_iff.mp hstrategies)).1 s hs
    exact ⟨_, storeWeight_eq hfeeds hw hrank hw' (Linear.layouts_of_strategy hc)⟩
  · intro strategies hcandidates s hs e he
    obtain ⟨first', i', w'', hfirst', hfeeds', hw'', -, hlayouts⟩ := layouts_of_layer hcandidates
    obtain ⟨c, hc, hs⟩ := hlayouts s hs
    cases hfirst.symm.trans hfirst'
    cases hfeeds.unique hfeeds'
    rw [hs] at he
    exact isCountable_of_mem_layerLayouts hi hresult (Linear.combines_of_mem_choices hc) he

end Handler

/-! ### Registrations -/

section Running

variable {m : Type → Type} [Monad m] [MonadExceptOf (Failure Refusal) m] [Runs m]
  {session : Session m} {site : Site} {published : Published} {handler : Handler}

/-- **A registration without prices does not fail** if the handler computes its candidates. -/
theorem register_unpriced_eq [LawfulMonad m] (hsession : session.CanTell)
    (hcomputes : handler.Computes site.mesh) {strategies : List Strategy}
    (hcandidates : handler.candidates = .ok strategies) {o : Planned Registration}
    (h : CanEnd (register session site published handler false) o) :
    o = .ok ⟨⟨site.node.id, strategies.filter fun s => (site.refusal? s).isNone⟩,
      strategies.filterMap site.refusal?⟩ := by
  cases o with
  | ok r => rw [register_unpriced hcandidates h]
  | error e =>
    rcases register_error h with ⟨hpricing, -⟩ | hfail | ⟨event, htells, hnote⟩ | ⟨hpricing, -⟩
    · exact nomatch hpricing
    · exact absurd hfail (hcomputes.not_fails e)
    · exact absurd hnote (hsession (htells.text_hasValue hcomputes.isCountable))
    · exact nomatch hpricing

end Running

end ShardPlan
