import ShardPlan.Planning.Registry
import ShardPlan.Proofs.Candidate.Covers
import ShardPlan.Proofs.Planning.Operands
import ShardPlan.Proofs.Planning.Registration

/-! # What the handlers offer

Every handler has one generator, and it has it exactly if the operands are there that it needs
(`input_generators_iff`, `output_generators_iff`, `elementwise_generators_iff`, `layer_generators_iff`). It
then fails by overflow only, and its candidates are about one list of operands, one of them splitting nothing
(`Handler.Offers`). -/

namespace ShardPlan

namespace Handler

/-! ### Handlers with one generator -/

/-- **A handler offers strategies for operands**: it fails by overflow only, its candidates are about the
operands, in this order, and one of the candidates splits nothing. -/
structure Offers (handler : Handler) (operands : List Operand) : Prop where
  overflow_of_fails : ∀ {e}, handler.Fails e → e.IsOverflow
  operands_eq : ∀ {strategies}, handler.candidates = .ok strategies →
    ∀ s ∈ strategies, s.operands = operands
  exists_replicated : ∀ {strategies}, handler.candidates = .ok strategies →
    ∃ s ∈ strategies, s.IsReplicated

theorem refined_eq_ok_iff {handler : Handler} {g : Generator} {own : List Strategy} :
    handler.refined g = .ok own ↔ ∃ generated refined, g.generate = .ok generated ∧
      generated.mapM handler.refine = .ok refined ∧ own = refined.flatten := by
  simp only [refined, bind_eq_ok_iff, ofChecked_eq_ok_iff]
  constructor
  · rintro ⟨generated, hgenerated, refined, hrefined, h⟩
    exact ⟨generated, refined, hgenerated, hrefined, (Except.ok.inj h).symm⟩
  · rintro ⟨generated, refined, hgenerated, hrefined, rfl⟩
    exact ⟨generated, hgenerated, refined, hrefined, rfl⟩

/-- **The candidates of a handler with one generator** are its strategies, refined. -/
theorem candidates_eq_ok_iff {handler : Handler} {g : Generator} {strategies : List Strategy}
    (hgen : handler.generators = .ok [g]) : handler.candidates = .ok strategies ↔
      ∃ generated refined, g.generate = .ok generated ∧
        generated.mapM handler.refine = .ok refined ∧ strategies = refined.flatten := by
  have hcandidates : handler.candidates =
      [g].mapM handler.refined >>= fun lists => pure lists.flatten := by
    rw [candidates, hgen]
    rfl
  rw [← refined_eq_ok_iff, hcandidates]
  constructor
  · intro h
    obtain ⟨lists, hlists, h⟩ := bind_eq_ok_iff.mp h
    cases h
    obtain ⟨own, others, hown, hothers, rfl⟩ :=
      List.forall₂_cons_left_iff.mp (mapM_eq_ok_iff.mp hlists)
    cases hothers
    rwa [List.flatten_singleton]
  · intro hown
    refine bind_eq_ok_iff.mpr ⟨[strategies], mapM_eq_ok_iff.mpr (.cons hown .nil), ?_⟩
    rw [List.flatten_singleton]
    rfl

theorem candidates_of_generator {handler : Handler} {g : Generator} {strategies : List Strategy}
    (hgen : handler.generators = .ok [g]) (hrefine : ∀ s, handler.refine s = .ok [s]) :
    handler.candidates = .ok strategies ↔ g.generate = .ok strategies := by
  have hmap : ∀ generated : List Strategy,
      generated.mapM handler.refine = .ok (generated.map fun s => [s]) :=
    fun generated => mapM_eq_ok fun s _ => hrefine s
  have hflatten : ∀ generated : List Strategy, (generated.map fun s => [s]).flatten = generated := by
    intro generated
    rw [← List.flatMap_def, List.flatMap_singleton']
  rw [candidates_eq_ok_iff hgen]
  constructor
  · rintro ⟨generated, refined, hgenerated, hrefined, rfl⟩
    cases (hmap generated).symm.trans hrefined
    rwa [hflatten]
  · intro h
    exact ⟨strategies, _, h, hmap strategies, (hflatten strategies).symm⟩

/-- **A handler with one generator fails only** if its strategies are not computed, or one of them cannot be
refined. -/
theorem not_fails {handler : Handler} {g : Generator} (hgen : handler.generators = .ok [g])
    (hvalue : HasValue g.generate)
    (hrefine : ∀ {strategies}, g.generate = .ok strategies →
      ∀ s ∈ strategies, HasValue (handler.refine s)) {e : Failure Refusal} : ¬ handler.Fails e := by
  rintro (h | ⟨generators, hgenerators, g', hg', hfails⟩)
  · exact nomatch hgen.symm.trans h
  cases hgen.symm.trans hgenerators
  cases List.mem_singleton.mp hg'
  obtain ⟨strategies, hstrategies⟩ := hvalue
  rcases hfails with h | ⟨strategies', hstrategies', s, hs, h⟩
  · rw [hstrategies] at h
    exact nomatch h
  · obtain ⟨refined, hrefined⟩ := hrefine hstrategies' s hs
    exact nomatch hrefined.symm.trans h

theorem Offers.of_covers {handler : Handler} {g : Generator} {covered operands : List Operand}
    (hgen : handler.generators = .ok [g]) (hcovers : g.Covers covered)
    (hrefine : ∀ s, s.operands = covered → ∃ s', handler.refine s = .ok [s'] ∧
      s'.operands = operands ∧ (s.IsReplicated → s'.IsReplicated)) : handler.Offers operands := by
  refine ⟨?_, fun h s hs => ?_, fun h => ?_⟩
  · rintro e (h | ⟨generators, hgenerators, g', hg', hfails⟩)
    · exact nomatch hgen.symm.trans h
    · cases hgen.symm.trans hgenerators
      cases List.mem_singleton.mp hg'
      rcases hfails with h | ⟨strategies, hstrategies, s, hs, h⟩
      · exact hcovers.onlyOverflows.ofChecked h
      · obtain ⟨s', hs', -⟩ := hrefine s (hcovers.operands_eq hstrategies s hs)
        exact nomatch hs'.symm.trans h
  · obtain ⟨generated, refined, hgenerated, hrefined, rfl⟩ := (candidates_eq_ok_iff hgen).mp h
    obtain ⟨list, hlist, hs⟩ := List.mem_flatten.mp hs
    obtain ⟨s₀, hs₀, hlist⟩ := (mem_of_forall₂ (mapM_eq_ok_iff.mp hrefined)).1 list hlist
    obtain ⟨s', hs', hoperands, -⟩ := hrefine s₀ (hcovers.operands_eq hgenerated s₀ hs₀)
    cases hs'.symm.trans hlist
    rwa [List.mem_singleton.mp hs]
  · obtain ⟨generated, refined, hgenerated, hrefined, rfl⟩ := (candidates_eq_ok_iff hgen).mp h
    obtain ⟨s, hs, hsplit⟩ := hcovers.exists_replicated hgenerated
    obtain ⟨list, hlist, hs'⟩ := (mem_of_forall₂ (mapM_eq_ok_iff.mp hrefined)).2 s hs
    obtain ⟨s', hrefined', -, hreplicated⟩ := hrefine s (hcovers.operands_eq hgenerated s hs)
    cases hrefined'.symm.trans hs'
    exact ⟨s', List.mem_flatten.mpr ⟨[s'], hlist, by simp⟩, hreplicated hsplit⟩

theorem Offers.of_generator {handler : Handler} {g : Generator} {operands : List Operand}
    (hgen : handler.generators = .ok [g]) (hcovers : g.Covers operands)
    (hrefine : ∀ s, handler.refine s = .ok [s]) : handler.Offers operands :=
  .of_covers hgen hcovers fun s hs => ⟨s, hrefine s, hs, id⟩

variable {site : Site} {handler : Handler} {generators : List Generator}

/-! ### The generators of each handler -/

theorem input_generators_iff (h : input site = .ok handler) :
    handler.generators = .ok generators ↔
      ∃ o, site.result = .ok o ∧ generators = [Boundary.inputGenerator site.mesh o] := by
  cases h
  simp only [bind_eq_ok_iff, inputOperands_eq_ok_iff, Site.mapped_eq_ok_iff]
  constructor
  · rintro ⟨_, ⟨o, ho, rfl⟩, o', ho', hgen⟩
    rw [SortedMap.get?_insert, if_pos rfl] at ho'
    cases ho'
    exact ⟨o, ho, (Except.ok.inj hgen).symm⟩
  · rintro ⟨o, ho, rfl⟩
    exact ⟨_, ⟨o, ho, rfl⟩, o, by rw [SortedMap.get?_insert, if_pos rfl], rfl⟩

theorem input_generators (h : input site = .ok handler) (htyped : site.node.tensor.isSome = true) :
    handler.generators = .ok [Boundary.inputGenerator site.mesh (.ofResult site.node)] :=
  (input_generators_iff h).mpr ⟨_, Site.result_eq_ok_iff.mpr ⟨htyped, rfl⟩, rfl⟩

theorem output_generators_iff (h : output site = .ok handler) :
    handler.generators = .ok generators ↔ ∃ inputs,
      List.Forall₂ site.Feeds site.node.args inputs ∧
        generators = [Boundary.outputGenerator site.mesh inputs] := by
  cases h
  simp only [bind_eq_ok_iff, outputOperands_eq_ok_iff]
  constructor
  · rintro ⟨_, ⟨inputs, hinputs, rfl⟩, hgen⟩
    rw [filterMap_returned rfl] at hgen
    exact ⟨inputs, hinputs, (Except.ok.inj hgen).symm⟩
  · rintro ⟨inputs, hinputs, rfl⟩
    refine ⟨_, ⟨inputs, hinputs, rfl⟩, ?_⟩
    rw [filterMap_returned rfl]
    rfl

theorem output_generators (h : output site = .ok handler) {inputs : List Operand}
    (hinputs : List.Forall₂ site.Feeds site.node.args inputs) :
    handler.generators = .ok [Boundary.outputGenerator site.mesh inputs] :=
  (output_generators_iff h).mpr ⟨inputs, hinputs, rfl⟩

theorem elementwise_generators_iff (h : elementwise site = .ok handler) :
    handler.generators = .ok generators ↔
      (site.node.args.length = 1 ∨ site.node.args.length = 2) ∧ ∃ inputs o,
        List.Forall₂ site.Feeds site.node.args inputs ∧ site.result = .ok o ∧
          generators = [(⟨inputs, o⟩ : Elementwise).generator site.mesh] := by
  cases h
  simp only [bind_eq_ok_iff, elementwiseOperands_eq_ok_iff, Site.mapped_eq_ok_iff]
  constructor
  · rintro ⟨_, ⟨hcount, inputs, o, hinputs, ho, rfl⟩, o', ho', hgen⟩
    rw [SortedMap.get?_insert, if_pos rfl] at ho'
    cases ho'
    rw [hinputs.length_eq] at hcount hgen
    rw [filterMap_argumentNames hcount] at hgen
    exact ⟨hinputs.length_eq ▸ hcount, inputs, o, hinputs, ho, (Except.ok.inj hgen).symm⟩
  · rintro ⟨hcount, inputs, o, hinputs, ho, rfl⟩
    refine ⟨_, ⟨hcount, inputs, o, hinputs, ho, rfl⟩, o, by rw [SortedMap.get?_insert, if_pos rfl], ?_⟩
    rw [hinputs.length_eq] at hcount ⊢
    rw [filterMap_argumentNames hcount]
    rfl

theorem elementwise_generators (h : elementwise site = .ok handler)
    (hcount : site.node.args.length = 1 ∨ site.node.args.length = 2) {inputs : List Operand}
    (hinputs : List.Forall₂ site.Feeds site.node.args inputs)
    (htyped : site.node.tensor.isSome = true) :
    handler.generators =
      .ok [(⟨inputs, .ofResult site.node⟩ : Elementwise).generator site.mesh] :=
  (elementwise_generators_iff h).mpr
    ⟨hcount, inputs, _, hinputs, Site.result_eq_ok_iff.mpr ⟨htyped, rfl⟩, rfl⟩

/-- The handler of a site that calls the module `m` as a linear layer. -/
def layer (site : Site) (m : ModuleTree) : Handler where
  operands := linearOperands site m
  generators := do
    let operands ← linearOperands site m
    let input ← site.mapped operands "input"
    let weight ← site.mapped operands "other"
    let output ← site.mapped operands "output"
    let layer : Linear := ⟨input, weight, operands.get? "bias", output⟩
    return [layer.generator site.mesh]
  refine := storeWeight site m

theorem linear_eq_ok_iff : linear site = .ok handler ↔
    ∃ m, site.calledModule = .ok m ∧ handler = layer site m := by
  rw [linear, bind_eq_ok_iff]
  exact exists_congr fun m => and_congr_right fun _ =>
    ⟨fun h => (Except.ok.inj h).symm, fun h => h ▸ rfl⟩

theorem layer_generators_iff {m : ModuleTree} : (layer site m).generators = .ok generators ↔
    ∃ input weight o, site.argument 0 = .ok input ∧ logicalWeight site m = .ok weight ∧
      site.result = .ok o ∧
        generators = [(⟨input, weight, bias? m, o⟩ : Linear).generator site.mesh] := by
  simp only [layer, bind_eq_ok_iff, linearOperands_eq_ok_iff, Site.mapped_eq_ok_iff]
  constructor
  · rintro ⟨_, ⟨input, weight, o, hinput, hweight, ho, rfl⟩, input', hi, weight', hw, o', ho', h⟩
    obtain ⟨hinput', hweight', hbias, ho''⟩ := get?_layerOperands m input weight o
    cases hinput'.symm.trans hi
    cases hweight'.symm.trans hw
    cases ho''.symm.trans ho'
    rw [hbias] at h
    exact ⟨input, weight, o, hinput, hweight, ho, (Except.ok.inj h).symm⟩
  · rintro ⟨input, weight, o, hinput, hweight, ho, rfl⟩
    obtain ⟨hinput', hweight', hbias, ho'⟩ := get?_layerOperands m input weight o
    refine ⟨_, ⟨input, weight, o, hinput, hweight, ho, rfl⟩, input, hinput', weight, hweight', o,
      ho', ?_⟩
    rw [hbias]
    rfl

theorem layer_generators {m : ModuleTree} {first : Nat} {i : Operand} {w w' : TensorType}
    (hfirst : site.node.args[0]? = some first) (hi : site.Feeds first i)
    (hw : m.parameters.get? "weight" = some w) (hrank : w.rank = 2)
    (hw' : w.transposed 0 1 = .ok w') (htyped : site.node.tensor.isSome = true) :
    (layer site m).generators =
      .ok [(⟨i, .ofParameter "weight" w', bias? m, .ofResult site.node⟩ : Linear).generator
        site.mesh] := by
  have hlogical : logicalWeight site m = .ok (.ofParameter "weight" w') :=
    logicalWeight_eq_ok_iff.mpr ⟨w, w', hw, hrank, hw', rfl⟩
  exact layer_generators_iff.mpr ⟨i, _, _, Site.argument_eq_ok_iff.mpr ⟨first, hfirst, hi⟩,
    hlogical, Site.result_eq_ok_iff.mpr ⟨htyped, rfl⟩, rfl⟩

/-! ### Weights as they are stored -/

/-- **The stored weight takes the place of the logical one**, with its layout transposed back. -/
theorem storeWeight_eq {m : ModuleTree} {first : Nat} {i : Operand} {w w' : TensorType}
    (hi : site.Feeds first i) (hw : m.parameters.get? "weight" = some w) (hrank : w.rank = 2)
    (hw' : w.transposed 0 1 = .ok w') {input weight : Layout} {rest : List (Operand × Layout)}
    {s : Strategy} (hs : s.layouts = (i, input) :: (.ofParameter "weight" w', weight) :: rest) :
    storeWeight site m s = .ok [{ s with
      layouts := (i, input) :: (.ofParameter "weight" w, weight.transposed 0 1) :: rest }] := by
  have hlogical : logicalWeight site m = .ok (.ofParameter "weight" w') :=
    logicalWeight_eq_ok_iff.mpr ⟨w, w', hw, hrank, hw', rfl⟩
  have hstored : storedWeight site m = .ok (.ofParameter "weight" w) :=
    bind_eq_ok_iff.mpr ⟨w, weightType_eq_ok_iff.mpr ⟨hw, hrank⟩, rfl⟩
  -- an argument is no parameter, so the input is not mistaken for the weight
  have hne : i ≠ .ofParameter "weight" w' := by
    obtain ⟨arg, -, -, rfl⟩ := hi
    exact fun h => nomatch congrArg Operand.role h
  have hfound : s.layoutOf? (.ofParameter "weight" w') = some weight := by
    rw [Strategy.layoutOf?, Strategy.find?, hs, List.find?_cons_of_neg (by simpa using hne),
      List.find?_cons_of_pos (by simp)]
    rfl
  have hreplaced : s.replace? (.ofParameter "weight" w') (.ofParameter "weight" w)
      (weight.transposed 0 1) = some { s with
        layouts := (i, input) :: (.ofParameter "weight" w, weight.transposed 0 1) :: rest } := by
    rw [Strategy.replace?, hs, Strategy.replaceFirst?, if_neg hne, Strategy.replaceFirst?, if_pos rfl]
    rfl
  refine bind_eq_ok_iff.mpr ⟨_, hlogical, bind_eq_ok_iff.mpr ⟨_, hstored, ?_⟩⟩
  rw [hfound]
  dsimp only
  rw [hreplaced]
  rfl

/-- **Storing the weight** puts it in the place of the logical one, and splits nothing that was not split. -/
theorem storeWeight_keeps {m : ModuleTree} {first : Nat} {i : Operand} {w w' : TensorType}
    (hi : site.Feeds first i) (hw : m.parameters.get? "weight" = some w) (hrank : w.rank = 2)
    (hw' : w.transposed 0 1 = .ok w') {others : List Operand} {s : Strategy}
    (hs : s.operands = i :: .ofParameter "weight" w' :: others) :
    ∃ s', storeWeight site m s = .ok [s'] ∧ s'.operands = i :: .ofParameter "weight" w :: others ∧
      (s.IsReplicated → s'.IsReplicated) := by
  obtain ⟨⟨i', l₁⟩, tail, hlayouts, hi', htail⟩ := List.map_eq_cons_iff.mp hs
  obtain ⟨⟨o', l₂⟩, rest, rfl, ho', hrest⟩ := List.map_eq_cons_iff.mp htail
  dsimp only at hi' ho'
  subst hi' ho'
  refine ⟨_, storeWeight_eq hi hw hrank hw' hlayouts, ?_, fun hreplicated e he => ?_⟩
  · rw [Strategy.operands, List.map_cons, List.map_cons, hrest]
  · rw [Strategy.IsReplicated, hlayouts, List.forall_mem_cons, List.forall_mem_cons] at hreplicated
    obtain ⟨hfirst, hsecond, hothers⟩ := hreplicated
    rcases List.mem_cons.mp he with rfl | he
    · exact hfirst
    rcases List.mem_cons.mp he with rfl | he
    · have hsecond : l₂ = .replicated := hsecond
      rw [hsecond]
      rfl
    · exact hothers e he

/-! ### What the handlers offer -/

theorem input_offers (h : input site = .ok handler) (htyped : site.node.tensor.isSome = true) :
    handler.Offers [.ofResult site.node] := by
  have hgen := input_generators h htyped
  cases h
  exact .of_generator hgen Boundary.inputGenerator_covers fun _ => rfl

theorem output_offers (h : output site = .ok handler) {inputs : List Operand}
    (hinputs : List.Forall₂ site.Feeds site.node.args inputs) : handler.Offers inputs := by
  have hgen := output_generators h hinputs
  cases h
  exact .of_generator hgen Boundary.outputGenerator_covers fun _ => rfl

theorem elementwise_offers (h : elementwise site = .ok handler)
    (hcount : site.node.args.length = 1 ∨ site.node.args.length = 2) {inputs : List Operand}
    (hinputs : List.Forall₂ site.Feeds site.node.args inputs)
    (htyped : site.node.tensor.isSome = true) :
    handler.Offers (inputs ++ [.ofResult site.node]) := by
  have hgen := elementwise_generators h hcount hinputs htyped
  cases h
  exact .of_generator hgen Elementwise.generator_covers fun _ => rfl

theorem layer_offers {m : ModuleTree} {first : Nat} {i : Operand} {w : TensorType}
    (hfirst : site.node.args[0]? = some first) (hi : site.Feeds first i)
    (hw : m.parameters.get? "weight" = some w) (hrank : w.rank = 2)
    (htyped : site.node.tensor.isSome = true) :
    (layer site m).Offers
      ([i, .ofParameter "weight" w] ++ (bias? m).toList ++ [.ofResult site.node]) := by
  obtain ⟨w', hw'⟩ := exists_transposed hrank
  have hgen := layer_generators hfirst hi hw hrank hw' htyped
  exact .of_covers hgen Linear.generator_covers fun s hs => storeWeight_keeps hi hw hrank hw' hs

end Handler

end ShardPlan
