import ShardPlan.Proofs.Planning.Standard
import ShardPlan.Proofs.Planning.Validity

/-! # When planning succeeds

With the standard registry and an oracle whose answers can be used, a graph has a plan exactly if each of
its nodes can be handled and, if strategies are priced, can be priced (`Graph.IsPlannable`). A node that is
registered is such a node (`Planner.Consistent.isPriced`), since it always commits a strategy: the one that
splits nothing fits. Conversely such a node fails by overflow only (`Planner.overflow_of_failsAt`). -/

namespace ShardPlan

/-- **A graph that can be planned** with the standard registry, with or without prices. -/
structure Graph.IsPlannable (graph : Graph) (pricing : Bool) : Prop where
  isHandled : ∀ n ∈ graph.nodes, n.IsHandled graph
  isPriced : pricing = true → ∀ n ∈ graph.nodes, n.IsPriced graph

/-! ### Operands of a strategy -/

namespace Strategy

variable {s : Strategy}

theorem isSome_result?_iff : s.result?.isSome = true ↔ ∃ o ∈ s.operands, o.role = .result := by
  simp [result?, find?, operands]

theorem argumentsFrom_ne_nil_iff {id : Nat} :
    s.argumentsFrom id ≠ [] ↔ ∃ o ∈ s.operands, o.isArgumentFrom id = true := by
  simp [argumentsFrom, operands]

end Strategy

theorem checkPredecessors_eq_ok {site : Site} {published : Published} : ∀ {ids : List Nat},
    (∀ id ∈ ids, published.contains id = true) → site.checkPredecessors published ids = .ok ()
  | [], _ => rfl
  | id :: ids, h => by
    obtain ⟨hid, hids⟩ := List.forall_mem_cons.mp h
    rw [Site.checkPredecessors, if_pos hid, checkPredecessors_eq_ok hids]

section Running

variable {m : Type → Type} [Monad m] [MonadExceptOf (Failure Refusal) m] [Runs m] [LawfulMonad m]
  {session : Session m} {site : Site} {published : Published}

/-- **A registration commits a strategy**, and every strategy that it commits is about the same operands. -/
theorem operands_of_register {handler : Handler} {operands : List Operand}
    (hoffers : handler.Offers operands) {pricing : Bool} {r : Registration}
    (h : CanEnd (register session site published handler pricing) (.ok r)) :
    (∀ s ∈ r.candidates.strategies, s.operands = operands) ∧ ∃ s, s ∈ r.candidates.strategies := by
  obtain ⟨-, strategies, hcandidates, hjudged⟩ := register_ok h
  constructor
  · intro s hs
    obtain ⟨s₀, hs₀, -, hpriced⟩ := hjudged.exists_candidate s hs
    rw [Strategy.operands, hpriced.layouts_eq]
    exact hoffers.operands_eq hcandidates s₀ hs₀
  · obtain ⟨s₀, hs₀, hreplicated⟩ := hoffers.exists_replicated hcandidates
    obtain ⟨s, hs, -⟩ := hjudged.exists_committed hs₀ (Site.misfit?_of_isReplicated hreplicated)
    exact ⟨s, hs⟩

namespace Planner

variable {planner : Planner} {graph : Graph} {plan : Plan} {done : List Nat} {id : Nat} {n : Node}

theorem operands_of_registerAt (hregistry : planner.registry = .standard)
    (hn : graph.node? id = some n) {r : Registration}
    (h : CanEnd (planner.registerAt session graph published id) (.ok r)) :
    n.IsHandled graph ∧ ∃ operands, (Site.mk graph n planner.mesh).Lists operands ∧
      (∀ s ∈ r.candidates.strategies, s.operands = operands) ∧
        ∃ s, s ∈ r.candidates.strategies := by
  obtain ⟨n', handler, hn', hhandler, h⟩ := registerAt_ok h
  cases hn.symm.trans hn'
  rw [hregistry] at hhandler
  obtain ⟨-, strategies, hcandidates, -⟩ := register_ok h
  obtain ⟨generators, hgen⟩ := Handler.exists_generators hcandidates
  have hhandled : n.IsHandled graph := isHandled_of_generators hhandler hgen
  obtain ⟨handler', operands, hhandler', hoffers, hlists⟩ :=
    exists_offers_of_isHandled ⟨graph, n, planner.mesh⟩ hhandled
  cases hhandler.symm.trans hhandler'
  exact ⟨hhandled, operands, hlists, operands_of_register hoffers h⟩

/-- A node that has published strategies has a result in each of them, unless it is an output. -/
theorem Consistent.exists_result (hregistry : planner.registry = .standard)
    (hplan : planner.Consistent session graph done plan) (hid : id ∈ done)
    (hn : graph.node? id = some n) : ∃ candidates, plan.published.get? id = some candidates ∧
      (∃ c, c ∈ candidates.strategies) ∧
        ∀ c ∈ candidates.strategies, c.result?.isSome = true ↔ n.operation ≠ .output := by
  obtain ⟨r, hr, hget⟩ := hplan.registered id hid
  obtain ⟨-, operands, hlists, hoperands, hexists⟩ := operands_of_registerAt hregistry hn hr
  refine ⟨r.candidates, hget, hexists, fun c hc => ?_⟩
  rw [Strategy.isSome_result?_iff, hoperands c hc]
  exact hlists.exists_result_iff

theorem Consistent.isPriced (hregistry : planner.registry = .standard)
    (hpricing : planner.options.priceResharding = true)
    (hplan : planner.Consistent session graph done plan) (hid : id ∈ done)
    (hn : graph.node? id = some n) : n.IsPriced graph := by
  obtain ⟨r, hr, hget⟩ := hplan.registered id hid
  obtain ⟨-, operands, hlists, hoperands, s, hs⟩ := operands_of_registerAt hregistry hn hr
  obtain ⟨n', handler, hn', -, hr⟩ := registerAt_ok hr
  cases hn.symm.trans hn'
  rw [hpricing] at hr
  refine Node.isPriced_iff.mpr ⟨fun arg harg p hp => ?_, fun arg harg => ?_⟩
  · obtain ⟨producers, hproducers, ⟨c, hc⟩, hresult⟩ :=
      hplan.exists_result hregistry (hplan.args_mem id hid n hn arg harg) hp
    obtain ⟨-, producers', hproducers', hresults⟩ := exists_result_of_register hr hs harg
    cases hproducers.symm.trans hproducers'
    obtain ⟨result, hfound⟩ := hresults c hc
    exact (hresult c hc).mp (by rw [hfound]; rfl)
  · obtain ⟨hne, -⟩ := exists_result_of_register hr hs harg
    rw [Strategy.argumentsFrom_ne_nil_iff, hoperands s hs] at hne
    exact hlists.exists_argument_iff.mp hne

omit [LawfulMonad m] in
theorem Consistent.checkPredecessors (hplan : planner.Consistent session graph done plan)
    (hargs : ∀ arg ∈ n.args, arg ∈ done) :
    (Site.mk graph n planner.mesh).checkPredecessors plan.published n.predecessors = .ok () := by
  exact checkPredecessors_eq_ok fun arg harg => hplan.contains (hargs arg (List.mem_eraseDups.mp harg))

/-- **Pricing fails by overflow only** if the node can be priced and its arguments are planned. -/
theorem Consistent.reshard_overflow (hregistry : planner.registry = .standard)
    (hsession : session.IsUsable) (hplan : planner.Consistent session graph done plan)
    (hargs : ∀ arg ∈ n.args, arg ∈ done) (hpriced : n.IsPriced graph) {s : Strategy}
    (hlists : (Site.mk graph n planner.mesh).Lists s.operands) {e : Failure Refusal}
    (hend : CanEnd (reshard session ⟨graph, n, planner.mesh⟩ plan.published s) (.error e)) :
    e.IsOverflow := by
  obtain ⟨arg, harg, hend⟩ := reshard_error hend
  have harg : arg ∈ n.args := List.mem_eraseDups.mp harg
  obtain ⟨houtput, hused⟩ := Node.isPriced_iff.mp hpriced
  obtain ⟨p, hp⟩ := hplan.exists_node (hargs arg harg)
  obtain ⟨candidates, hget, -, hresult⟩ := hplan.exists_result hregistry (hargs arg harg) hp
  -- none of the four reasons is left: the argument is no output, and the node uses it
  refine hsession.reshardingCosts_overflow hp hget
    (fun c hc => (hresult c hc).mpr (houtput arg harg p hp)) ?_ (fun e he => ?_) hend
  · rw [Strategy.argumentsFrom_ne_nil_iff]
    exact hlists.exists_argument_iff.mpr (hused arg harg)
  · obtain ⟨hmem, hfrom⟩ := List.mem_filter.mp he
    have hprovides := hlists.provides e.1 (List.mem_map_of_mem hmem)
    obtain ⟨arg', -, htyped, heq⟩ := hprovides.feeds hfrom
    rw [heq]
    exact htyped

/-- **A node that can be handled and priced fails by overflow only** once its arguments are planned. -/
theorem overflow_of_failsAt (hregistry : planner.registry = .standard) (hsession : session.IsUsable)
    (hplan : planner.Consistent session graph done plan) (hn : graph.node? id = some n)
    (hargs : ∀ arg ∈ n.args, arg ∈ done) (hhandled : n.IsHandled graph)
    (hpriced : planner.options.priceResharding = true → n.IsPriced graph) {e : Failure Refusal}
    (hfails : planner.FailsAt session graph plan.published id e) : e.IsOverflow := by
  obtain ⟨handler, operands, hhandler, hoffers, hlists⟩ :=
    exists_offers_of_isHandled ⟨graph, n, planner.mesh⟩ hhandled
  rcases hfails with hend | ⟨r, hr, hdead, -⟩
  · rcases registerAt_error hn hend with hrefused | ⟨handler', hhandler', hend⟩
    · rw [hregistry] at hrefused
      cases hhandler.symm.trans hrefused
    rw [hregistry] at hhandler'
    cases hhandler.symm.trans hhandler'
    rcases register_error hend with ⟨-, hcheck⟩ | hfails | ⟨event, -, hnote⟩ |
      ⟨hpricing, strategies, s, hcandidates, hs, -, hend⟩
    · cases hcheck.symm.trans (hplan.checkPredecessors hargs)
    · exact hoffers.overflow_of_fails hfails
    · exact hsession.note_overflow hnote
    · rw [← hoffers.operands_eq hcandidates s hs] at hlists
      exact hplan.reshard_overflow hregistry hsession hargs (hpriced hpricing) hlists hend
  · -- the strategy that splits nothing fits, so no node is a dead end
    obtain ⟨-, operands', -, -, s, hs⟩ := operands_of_registerAt hregistry hn hr
    have hlive : r.isDeadEnd = false := by
      rw [Registration.isDeadEnd, List.isEmpty_eq_false_iff.mpr (List.ne_nil_of_mem hs)]
      rfl
    rw [hlive, Bool.false_and] at hdead
    cases hdead

/-- **The graphs that have a plan** with the standard registry and an oracle whose answers can be used, as
long as no size overflows: those all of whose nodes can be handled and, if strategies are priced, can be
priced. -/
theorem plan_ok_iff (planner : Planner) (hregistry : planner.registry = .standard)
    (session : Session m) (hsession : session.IsUsable) (graph : Graph) {o : Planned Plan}
    (h : CanEnd (planner.plan session graph) o) (hoverflow : ∀ e, o = .error e → ¬ e.IsOverflow) :
    (∃ plan, o = .ok plan) ↔ graph.IsPlannable planner.options.priceResharding := by
  constructor
  · rintro ⟨plan, rfl⟩
    have hplan := consistent_of_plan h
    constructor
    · intro n hn
      have hn := Graph.node?_of_mem hn
      obtain ⟨r, hr, -⟩ := hplan.registered n.id (mem_order_of_node? hn)
      exact (operands_of_registerAt hregistry hn hr).1
    · intro hpricing n hn
      have hn := Graph.node?_of_mem hn
      exact hplan.isPriced hregistry hpricing (mem_order_of_node? hn) hn
  · intro hgraph
    cases o with
    | ok plan => exact ⟨plan, rfl⟩
    | error e =>
      refine absurd ?_ (hoverflow e rfl)
      rcases h.bind_error with hrun | ⟨plan, -, hnote⟩
      · obtain ⟨done, plan, id, hplan, hid, hargs, hfails⟩ :=
          exists_failsAt_of_run graph.levels_isLayering hrun
        obtain ⟨n, hn⟩ := Graph.exists_node? hid
        have hmem := Graph.mem_nodes_of_node? hn
        exact overflow_of_failsAt hregistry hsession hplan hn (hargs n hn) (hgraph.isHandled n hmem)
          (fun hpricing => hgraph.isPriced hpricing n hmem) hfails
      · rcases hnote.bind_error with hnote | ⟨-, -, hpure⟩
        · exact hsession.note_overflow hnote
        · exact absurd hpure Runs.not_canEnd_pure_error

end Planner

end Running

theorem Session.free_isUsable : Session.free.IsUsable where
  isUsable h := by
    cases h
    rfl
  ask_overflow h := nomatch h
  note_overflow h := nomatch h

theorem plan_ok_iff_of_joining :
    Planner.square.registry = .standard ∧ Session.free.IsUsable ∧
      (∃ plan, Planner.square.plan .free .joining = .ok plan) ∧
        Graph.joining.IsPlannable Planner.square.options.priceResharding := by
  obtain ⟨plan, hplan⟩ := joining_planned
  refine ⟨rfl, Session.free_isUsable, ⟨plan, hplan⟩, ?_⟩
  exact (Planner.plan_ok_iff .square rfl .free Session.free_isUsable .joining hplan nofun).mp
    ⟨plan, rfl⟩

end ShardPlan
