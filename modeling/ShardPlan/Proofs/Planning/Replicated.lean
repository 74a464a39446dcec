import ShardPlan.Proofs.Planning.Order
import ShardPlan.Proofs.Planning.Records
import ShardPlan.Proofs.Planning.Success

/-! # The replicated strategy

Every generator lists first the strategy that splits nothing. Refining keeps it first, it fits operands of any
size, and pricing does not change its layouts, so it is the first one that is committed
(`startReplicated_of_register`). In a plan with the standard handlers every node can therefore be replicated,
and none is a dead end (`Planner.standard_never_dead`). -/

namespace ShardPlan

namespace Handler

variable {site : Site} {handler : Handler}

theorem Finds.startReplicated (h : Finds site handler) {strategies : List Strategy}
    (hcandidates : handler.candidates = .ok strategies) : StartReplicated strategies := by
  cases h with
  | input h htyped =>
    have hgen := input_generators h htyped
    cases h
    exact Boundary.startReplicated_of_inputGenerator
      ((candidates_of_generator hgen fun _ => rfl).mp hcandidates)
  | output h hinputs =>
    have hgen := output_generators h hinputs
    cases h
    exact Boundary.startReplicated_of_outputGenerator
      ((candidates_of_generator hgen fun _ => rfl).mp hcandidates)
  | elementwise h hcount hinputs htyped =>
    have hgen := elementwise_generators h hcount hinputs htyped
    cases h
    exact Elementwise.startReplicated_of_generator
      ((candidates_of_generator hgen fun _ => rfl).mp hcandidates)
  | layer h hm hfirst hfeeds hw hrank htyped =>
    subst h
    obtain ⟨w', hw'⟩ := exists_transposed hrank
    have hgen := layer_generators hfirst hfeeds hw hrank hw' htyped
    obtain ⟨generated, refined, hgenerated, hrefined, rfl⟩ := (candidates_eq_ok_iff hgen).mp hcandidates
    obtain ⟨s, rest, rfl, hs⟩ := Linear.startReplicated_of_generator hgenerated
    obtain ⟨list, lists, hlist, -, rfl⟩ :=
      List.forall₂_cons_left_iff.mp (mapM_eq_ok_iff.mp hrefined)
    have hoperands := Linear.generator_covers.operands_eq hgenerated s List.mem_cons_self
    obtain ⟨s', hs', -, hkeeps⟩ := storeWeight_keeps hfeeds hw hrank hw' hoperands
    cases hs'.symm.trans hlist
    exact ⟨s', lists.flatten, rfl, hkeeps hs⟩

end Handler

section Running

variable {m : Type → Type} [Monad m] [MonadExceptOf (Failure Refusal) m] [Runs m]
  {session : Session m} {site : Site} {published : Published} {pricing : Bool}

theorem Judged.startReplicated {strategies committed : List Strategy} {rejected : List Refusal}
    (h : Judged session site published pricing strategies committed rejected)
    (hstart : StartReplicated strategies) : StartReplicated committed := by
  obtain ⟨s, rest, rfl, hs⟩ := hstart
  cases h with
  | commit hfit hpriced hrest =>
    refine ⟨_, _, rfl, ?_⟩
    rw [Strategy.IsReplicated, hpriced.layouts_eq]
    exact hs
  | reject hmisfit hrest =>
    have hsame := (Site.misfit?_of_isReplicated hs).symm.trans hmisfit
    cases hsame

theorem startReplicated_of_register [LawfulMonad m] {factory : Factory}
    (hfactory : factory ∈ Handler.builtIn) {handler : Handler} (hhandler : factory site = .ok handler)
    {r : Registration} (h : CanEnd (register session site published handler pricing) (.ok r)) :
    StartReplicated r.candidates.strategies := by
  obtain ⟨-, strategies, hcandidates, hjudged⟩ := register_ok h
  obtain ⟨generators, hgen⟩ := Handler.exists_generators hcandidates
  exact hjudged.startReplicated
    ((Handler.finds_of_generators hfactory hhandler hgen).startReplicated hcandidates)

namespace Planner

theorem Consistent.exists_replicated [LawfulMonad m] {planner : Planner} {graph : Graph}
    {done : List Nat} {plan : Plan} (hregistry : planner.registry = .standard)
    (hplan : planner.Consistent session graph done plan) {id : Nat} (hid : id ∈ done) {n : Node}
    (hn : graph.node? id = some n) : ∃ first rest,
      plan.published.get? id = some ⟨id, first :: rest⟩ ∧ first.IsReplicated ∧
        (Site.mk graph n planner.mesh).Lists first.operands := by
  obtain ⟨r, hr, hget⟩ := hplan.registered id hid
  obtain ⟨-, operands, hlists, hoperands, -⟩ := operands_of_registerAt hregistry hn hr
  obtain ⟨n', handler, hn', hhandler, hregister⟩ := registerAt_ok hr
  cases hn.symm.trans hn'
  rw [hregistry] at hhandler
  obtain ⟨factory, hfactory, hhandler⟩ := Registry.standard_isBuiltIn.exists_factory hhandler
  obtain ⟨first, rest, hcommitted, hfirst⟩ := startReplicated_of_register hfactory hhandler hregister
  refine ⟨first, rest, ?_, hfirst, ?_⟩
  · rw [hget, ← hcommitted, ← node_of_registerAt hr]
  · rwa [hoperands first (by rw [hcommitted]; exact List.mem_cons_self)]

/-- **No node is a dead end** with the standard handlers. In a plan every node has strategies, the first of which
replicates all operands of the node, whatever their shapes. -/
theorem standard_never_dead [LawfulMonad m] (planner : Planner)
    (hregistry : planner.registry = .standard) (session : Session m) (graph : Graph) {plan : Plan}
    (h : CanEnd (planner.plan session graph) (.ok plan)) :
    plan.deadEnds = [] ∧ ∀ n ∈ graph.nodes, ∃ first rest,
      plan.published.get? n.id = some ⟨n.id, first :: rest⟩ ∧ first.IsReplicated ∧
        (Site.mk graph n planner.mesh).Lists first.operands := by
  have hplan := consistent_of_plan h
  constructor
  · rw [deadEnds_of_plan h, List.filter_eq_nil_iff]
    intro id hid
    obtain ⟨n, hn⟩ := hplan.exists_node hid
    obtain ⟨first, rest, hget, -⟩ := hplan.exists_replicated hregistry hid hn
    have hlive : plan.commitsNothing id = false := by
      rw [Plan.commitsNothing, hget]
      rfl
    rw [hlive]
    exact Bool.false_ne_true
  · intro n hn
    have hn := Graph.node?_of_mem hn
    exact hplan.exists_replicated hregistry (mem_order_of_node? hn) hn

end Planner

end Running

/-- Functions of tensors with odd sizes, without elements and without dimensions. -/
def Graph.uneven : Graph where
  nodes := [⟨0, "x", .input, [], [1], some ⟨[3, 5], .f32⟩⟩,
    ⟨1, "f", .function "relu", [0], [6], some ⟨[3, 5], .f32⟩⟩,
    ⟨2, "y", .input, [], [3], some ⟨[0, 7], .f32⟩⟩,
    ⟨3, "g", .function "neg", [2], [6], some ⟨[0, 7], .f32⟩⟩,
    ⟨4, "z", .input, [], [5], some ⟨[], .f32⟩⟩,
    ⟨5, "h", .function "gelu", [4], [6], some ⟨[], .f32⟩⟩,
    ⟨6, "output", .output, [1, 3, 5], [], none⟩]
  owner := none
  map_id_nodes := rfl
  args_lt := by decide

theorem uneven_planned : ∃ plan, Planner.square.plan .free .uneven = .ok plan := ⟨_, rfl⟩

/-- Tensors of odd sizes, without elements and without dimensions can be replicated. -/
theorem standard_never_dead_of_uneven :
    Planner.square.registry = .standard ∧ ∃ plan, Planner.square.plan .free .uneven = .ok plan ∧
      plan.deadEnds = [] ∧ ∀ n ∈ Graph.uneven.nodes, ∃ first rest,
        plan.published.get? n.id = some ⟨n.id, first :: rest⟩ ∧ first.IsReplicated := by
  obtain ⟨plan, hplan⟩ := uneven_planned
  obtain ⟨hlive, hpublished⟩ := Planner.standard_never_dead .square rfl .free .uneven hplan
  refine ⟨rfl, plan, hplan, hlive, fun n hn => ?_⟩
  obtain ⟨first, rest, hget, hfirst, -⟩ := hpublished n hn
  exact ⟨first, rest, hget, hfirst⟩

end ShardPlan
