import ShardPlan.Proofs.Planning.Order
import ShardPlan.Proofs.Planning.Queries

/-! # The layouts of a plan are valid

Whatever is committed has passed the filter, so its layouts fit the tensors of their operands. The operands
on both ends of an edge are made from the node in between, so they carry the same tensor, and both layouts
are valid for it (`Planner.Consistent.meets`). -/

namespace ShardPlan

/-- **Two strategies meet along an edge** if what the one takes from the predecessor is the tensor that the
other leaves there, and the layouts on both sides fit it. -/
def Strategy.Meets (mesh : Mesh) (previous : Nat) (s c : Strategy) : Prop :=
  ∃ result t, c.result? = some result ∧ result.1.tensor = some t ∧
    result.2.violation? t mesh = .ok none ∧ s.argumentsFrom previous ≠ [] ∧
      ∀ e ∈ s.argumentsFrom previous, e.1.tensor = some t ∧ e.2.violation? t mesh = .ok none

namespace Planner

section Running

variable {m : Type → Type} [Monad m] [MonadExceptOf (Failure Refusal) m] [Runs m]
  {planner : Planner} {session : Session m} {graph : Graph} {plan : Plan}

theorem consistent_of_plan [LawfulMonad m] (h : CanEnd (planner.plan session graph) (.ok plan)) :
    planner.Consistent session graph graph.order plan := by
  obtain ⟨plan', hrun, h⟩ := h.bind_ok
  obtain ⟨-, -, h⟩ := h.bind_ok
  cases h.eq_of_pure_ok
  exact consistent_of_run graph.levels_isLayering hrun

theorem mem_order_of_node? {id : Nat} {n : Node} (h : graph.node? id = some n) : id ∈ graph.order :=
  graph.order_perm.mem_iff.mpr (List.mem_range.mpr (Graph.lt_size_of_node? h))

theorem Consistent.meets [LawfulMonad m] (hregistry : planner.registry.IsBuiltIn)
    (hpricing : planner.options.priceResharding = true)
    (hplan : planner.Consistent session graph graph.order plan) {id previous : Nat} {n : Node}
    (hn : graph.node? id = some n) (hprevious : previous ∈ n.args) :
    ∃ consumers producers, plan.published.get? id = some consumers ∧
      plan.published.get? previous = some producers ∧
        ∀ s ∈ consumers.strategies, ∀ c ∈ producers.strategies, s.Meets planner.mesh previous c := by
  obtain ⟨r, hr, hconsumers⟩ := hplan.registered id (mem_order_of_node? hn)
  obtain ⟨n', handler, hn', hhandler, hr⟩ := registerAt_ok hr
  cases hn.symm.trans hn'
  rw [hpricing] at hr
  obtain ⟨factory, hfactory, hhandler⟩ := hregistry.exists_factory hhandler
  have hargs := hplan.args_mem id (mem_order_of_node? hn) n hn previous hprevious
  obtain ⟨r', -, hproducers⟩ := hplan.registered previous hargs
  obtain ⟨p, hp, hadmits⟩ := hplan.admits hregistry hproducers
  refine ⟨r.candidates, r'.candidates, hconsumers, hproducers, fun s hs c hc => ?_⟩
  obtain ⟨hne, producers, hproducers', hresults⟩ := exists_result_of_register hr hs hprevious
  cases hproducers.symm.trans hproducers'
  obtain ⟨result, hresult⟩ := hresults c hc
  obtain ⟨t, ht, htensor, hsupplied⟩ := (hadmits c hc).result hresult
  refine ⟨result, t, hresult, htensor, hsupplied, hne, fun e he => ?_⟩
  obtain ⟨arg, t', harg, ht', htensor', hdemanded⟩ :=
    (admits_of_register hfactory hhandler hr s hs).argument he
  cases hp.symm.trans harg
  cases ht.symm.trans ht'
  exact ⟨htensor', hdemanded⟩

/-- **The layouts of a plan are valid**, with handlers of this library. Every layout of every committed
strategy fits the tensor of its operand. If strategies are priced, a user and its predecessor agree on the
tensor that the one takes and the other leaves, and the layouts on both sides fit it. Nor is the oracle
asked about other layouts: the plan stays the same if other questions are answered differently. -/
theorem plan_is_valid [LawfulMonad m] (planner : Planner) (hregistry : planner.registry.IsBuiltIn)
    (session : Session m) (graph : Graph) :
    (∀ plan, CanEnd (planner.plan session graph) (.ok plan) →
      (∀ id candidates, plan.published.get? id = some candidates →
        ∀ s ∈ candidates.strategies, ∀ e ∈ s.layouts, ∀ t, e.1.tensor = some t →
          e.2.violation? t planner.mesh = .ok none) ∧
      (planner.options.priceResharding = true → ∀ n ∈ graph.nodes, ∀ previous ∈ n.args,
        ∃ consumers producers, plan.published.get? n.id = some consumers ∧
          plan.published.get? previous = some producers ∧
            ∀ s ∈ consumers.strategies, ∀ c ∈ producers.strategies,
              s.Meets planner.mesh previous c)) ∧
    ∀ session', session.AgreesWith session' planner.mesh →
      planner.plan session' graph = planner.plan session graph := by
  refine ⟨fun plan h => ⟨fun id candidates hget s hs => ?_, fun hpricing n hn previous hprevious => ?_⟩,
    fun session' hsession => plan_congr hregistry hsession⟩
  · obtain ⟨n, -, hadmits⟩ := (consistent_of_plan h).admits hregistry hget
    exact (hadmits s hs).allFit
  · exact (consistent_of_plan h).meets hregistry hpricing (Graph.node?_of_mem hn) hprevious

end Running

end Planner

/-- The sum in this graph takes a tensor from its second argument that is smaller than its own. -/
theorem plan_is_valid_of_joining :
    Planner.square.registry.IsBuiltIn ∧ ∃ plan, Planner.square.plan .free .joining = .ok plan ∧
      (∀ id candidates, plan.published.get? id = some candidates →
        ∀ s ∈ candidates.strategies, ∀ e ∈ s.layouts, ∀ t, e.1.tensor = some t →
          e.2.violation? t .square = .ok none) ∧
      ∃ consumers producers, plan.published.get? 3 = some consumers ∧
        plan.published.get? 1 = some producers ∧
          ∀ s ∈ consumers.strategies, ∀ c ∈ producers.strategies, s.Meets .square 1 c := by
  have hregistry : Planner.square.registry.IsBuiltIn := Registry.standard_isBuiltIn
  obtain ⟨plan, hplan⟩ := joining_planned
  obtain ⟨hlayouts, hedges⟩ := (Planner.plan_is_valid .square hregistry .free .joining).1 plan hplan
  have hedge := hedges rfl ⟨3, "s", .function "add", [2, 1], [], some ⟨[8, 4], .f32⟩⟩
    (.tail _ (.tail _ (.tail _ (.head _)))) 1 (by decide)
  exact ⟨hregistry, plan, hplan, hlayouts, hedge⟩

end ShardPlan
