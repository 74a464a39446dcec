import ShardPlan.Proofs.Planning.Committed

/-! # What a plan records

Every node of a graph is registered once, in the order of the levels, and a plan is what these registrations
add up to (`Planner.exists_added_of_plan`). Apart from the prices, a registration is determined by the
candidates of the node: those that fit are committed, of the others the refusals are kept, both in order
(`Planner.registerAt_sorts`). So the diagnostics of a plan are the refusals of all nodes
(`Planner.diagnostics_of_plan`), and its dead ends are the nodes that have refused candidates and commit none
(`Planner.deadEnds_of_plan`). -/

namespace ShardPlan

/-! ### Leaving out prices -/

/-- The strategy without the costs of coming to it. -/
def Strategy.unpriced (s : Strategy) : Strategy := { s with resharding := .empty }

/-- The candidates without the costs of coming to them. -/
def Candidates.unpriced (c : Candidates) : Candidates :=
  { c with strategies := c.strategies.map Strategy.unpriced }

/-- The registration without the costs of coming to what it commits. -/
def Registration.unpriced (r : Registration) : Registration :=
  { r with candidates := r.candidates.unpriced }

theorem Registration.isDeadEnd_unpriced (r : Registration) : r.unpriced.isDeadEnd = r.isDeadEnd := by
  rw [isDeadEnd, isDeadEnd, unpriced, Candidates.unpriced, List.isEmpty_map]

/-! ### Sorting the candidates of a node -/

/-- **The candidates of a node, sorted** into those that fit and the refusals of the others. -/
def Site.sort (site : Site) (strategies : List Strategy) : Registration :=
  ⟨⟨site.node.id, strategies.filter fun s => (site.refusal? s).isNone⟩,
    strategies.filterMap site.refusal?⟩

section Running

variable {m : Type → Type} [Monad m] [MonadExceptOf (Failure Refusal) m] [Runs m]
  {session : Session m} {site : Site} {published : Published} {handler : Handler} {pricing : Bool}

theorem PricedAs.unpriced_eq {s priced : Strategy}
    (h : PricedAs session site published pricing s priced) : priced.unpriced = s.unpriced := by
  rw [h.eq_with_resharding]
  rfl

theorem Judged.unpriced_eq {strategies committed : List Strategy} {rejected : List Refusal}
    (h : Judged session site published pricing strategies committed rejected) :
    (Registration.mk ⟨site.node.id, committed⟩ rejected).unpriced = (site.sort strategies).unpriced := by
  obtain ⟨hpriced, rfl⟩ := h.sorts
  have hmap : (strategies.filter fun s => (site.refusal? s).isNone).map Strategy.unpriced =
      committed.map Strategy.unpriced := by
    rw [← List.forall₂_eq_eq_eq, List.forall₂_map_left_iff, List.forall₂_map_right_iff]
    exact hpriced.imp fun s priced hs => hs.unpriced_eq.symm
  rw [Registration.unpriced, Candidates.unpriced, ← hmap]
  rfl

/-- **A registration sorts the candidates** of its handler. -/
theorem register_sorts [LawfulMonad m] {r : Registration}
    (h : CanEnd (register session site published handler pricing) (.ok r)) :
    ∃ strategies, handler.candidates = .ok strategies ∧
      r.unpriced = (site.sort strategies).unpriced := by
  obtain ⟨hnode, strategies, hcandidates, hjudged⟩ := register_ok h
  obtain ⟨⟨node, committed⟩, rejected⟩ := r
  cases hnode
  exact ⟨strategies, hcandidates, hjudged.unpriced_eq⟩

end Running

/-! ### The candidates of each node -/

namespace Planner

/-- The site of a node and the candidates of its handler. -/
def candidatesAt (planner : Planner) (graph : Graph) (id : Nat) : Planned (Site × List Strategy) := do
  let (site, handler) ← planner.handlerAt graph id
  let strategies ← handler.candidates
  return (site, strategies)

theorem candidatesAt_ok {planner : Planner} {graph : Graph} {id : Nat} {site : Site}
    {strategies : List Strategy} (h : planner.candidatesAt graph id = .ok (site, strategies)) :
    ∃ handler, planner.handlerAt graph id = .ok (site, handler) ∧
      handler.candidates = .ok strategies := by
  obtain ⟨⟨site, handler⟩, hat, h⟩ := bind_eq_ok_iff.mp h
  obtain ⟨strategies, hcandidates, h⟩ := bind_eq_ok_iff.mp h
  cases h
  exact ⟨handler, hat, hcandidates⟩

/-- **Why candidates of a node are left out**, in the order of the candidates. -/
def rejections (planner : Planner) (graph : Graph) (id : Nat) : List Refusal :=
  match planner.candidatesAt graph id with
  | .ok (site, strategies) => strategies.filterMap site.refusal?
  | .error _ => []

section Running

variable {m : Type → Type} [Monad m] [MonadExceptOf (Failure Refusal) m] [Runs m]
  {planner : Planner} {session : Session m} {graph : Graph} {published : Published} {id : Nat}

theorem registerAt_sorts [LawfulMonad m] {r : Registration}
    (h : CanEnd (planner.registerAt session graph published id) (.ok r)) :
    ∃ n strategies, graph.node? id = some n ∧
      planner.candidatesAt graph id = .ok (⟨graph, n, planner.mesh⟩, strategies) ∧
        r.unpriced = ((Site.mk graph n planner.mesh).sort strategies).unpriced := by
  obtain ⟨n, handler, hn, hhandler, h⟩ := registerAt_ok h
  obtain ⟨strategies, hcandidates, hsorts⟩ := register_sorts h
  have hat : planner.handlerAt graph id = .ok (⟨graph, n, planner.mesh⟩, handler) := by
    rw [handlerAt_eq hn, hhandler]
    rfl
  exact ⟨n, strategies, hn, bind_eq_ok_iff.mpr ⟨_, hat, bind_eq_ok_iff.mpr ⟨_, hcandidates, rfl⟩⟩,
    hsorts⟩

theorem rejected_of_registerAt [LawfulMonad m] {r : Registration}
    (h : CanEnd (planner.registerAt session graph published id) (.ok r)) :
    r.rejected = planner.rejections graph id := by
  obtain ⟨n, strategies, -, hcandidates, hsorts⟩ := registerAt_sorts h
  rw [rejections, hcandidates]
  exact congrArg Registration.rejected hsorts

theorem node_of_registerAt [LawfulMonad m] {r : Registration}
    (h : CanEnd (planner.registerAt session graph published id) (.ok r)) : r.candidates.node = id := by
  obtain ⟨n, strategies, hn, -, hsorts⟩ := registerAt_sorts h
  rw [← Graph.id_of_node? hn]
  exact congrArg (fun r => r.candidates.node) hsorts

end Running

end Planner

/-! ### Plans as sums of registrations -/

namespace Plan

/-- The node has published candidates, but none that fits. -/
def commitsNothing (plan : Plan) (id : Nat) : Bool :=
  (plan.published.get? id).any fun candidates => candidates.strategies.isEmpty

theorem addAll_append {plan : Plan} {added added' : List (Nat × Registration)} :
    plan.addAll (added ++ added') = (plan.addAll added).addAll added' :=
  List.foldl_append

theorem diagnostics_addAll : ∀ {added : List (Nat × Registration)} {plan : Plan},
    (plan.addAll added).diagnostics = plan.diagnostics ++ added.flatMap fun e => e.2.rejected
  | [], plan => (List.append_nil plan.diagnostics).symm
  | e :: added, plan => by
    have hadd : (plan.add e.1 e.2).diagnostics = plan.diagnostics ++ e.2.rejected := rfl
    rw [List.flatMap_cons, ← List.append_assoc, ← hadd]
    exact @diagnostics_addAll added _

theorem deadEnds_addAll : ∀ {added : List (Nat × Registration)} {plan : Plan},
    (plan.addAll added).deadEnds =
      plan.deadEnds ++ (added.filter fun e => e.2.isDeadEnd).map Prod.fst
  | [], plan => (List.append_nil plan.deadEnds).symm
  | e :: added, plan => by
    have hrest : (plan.addAll (e :: added)).deadEnds =
        (plan.add e.1 e.2).deadEnds ++ (added.filter fun e => e.2.isDeadEnd).map Prod.fst :=
      @deadEnds_addAll added _
    rw [hrest, List.filter_cons, Plan.add]
    split
    · rw [List.map_cons, List.append_assoc]
      rfl
    · rfl

end Plan

namespace Planner

section Running

variable {m : Type → Type} [Monad m] [MonadExceptOf (Failure Refusal) m] [Runs m] [LawfulMonad m]
  {planner : Planner} {session : Session m} {graph : Graph} {plan : Plan}

/-- **A plan is made of one registration for each node**, in the order of the levels. Each was made against
what was published at the time. -/
theorem exists_added_of_plan (h : CanEnd (planner.plan session graph) (.ok plan)) :
    ∃ added : List (Nat × Registration), added.map Prod.fst = graph.order ∧
      (∀ e ∈ added, (∃ published, CanEnd (planner.registerAt session graph published e.1) (.ok e.2)) ∧
        planner.Allows e.2) ∧ plan = ({} : Plan).addAll added := by
  obtain ⟨plan', hrun, h⟩ := h.bind_ok
  obtain ⟨-, -, h⟩ := h.bind_ok
  cases h.eq_of_pure_ok
  refine hrun.foldlM_ok (fun past plan => ∃ added : List (Nat × Registration),
    added.map Prod.fst = past.flatten ∧
      (∀ e ∈ added, (∃ published, CanEnd (planner.registerAt session graph published e.1) (.ok e.2)) ∧
        planner.Allows e.2) ∧ plan = ({} : Plan).addAll added) ⟨[], rfl, nofun, rfl⟩ ?_
  rintro past level rest plan next - ⟨added, hids, hadded, rfl⟩ hstep
  obtain ⟨new, rfl, hnew, rfl⟩ := planLevel_ok hstep
  refine ⟨added ++ new, ?_, fun e he => ?_, Plan.addAll_append.symm⟩
  · rw [List.map_append, hids, List.flatten_append, List.flatten_singleton]
  · rcases List.mem_append.mp he with he | he
    · exact hadded e he
    · exact ⟨⟨_, (hnew e he).1⟩, (hnew e he).2⟩

theorem candidatesAt_of_plan (h : CanEnd (planner.plan session graph) (.ok plan)) {id : Nat}
    (hid : id ∈ graph.order) :
    ∃ site strategies, planner.candidatesAt graph id = .ok (site, strategies) := by
  obtain ⟨added, hids, hadded, -⟩ := exists_added_of_plan h
  rw [← hids] at hid
  obtain ⟨e, he, rfl⟩ := List.mem_map.mp hid
  obtain ⟨⟨published, hend⟩, -⟩ := hadded e he
  obtain ⟨n, strategies, -, hcandidates, -⟩ := registerAt_sorts hend
  exact ⟨_, strategies, hcandidates⟩

/-- **The diagnostics of a plan** are the refusals of the candidates of all nodes. -/
theorem diagnostics_of_plan (h : CanEnd (planner.plan session graph) (.ok plan)) :
    plan.diagnostics = graph.order.flatMap (planner.rejections graph) := by
  obtain ⟨added, hids, hadded, rfl⟩ := exists_added_of_plan h
  rw [Plan.diagnostics_addAll, ← hids, List.flatMap_map]
  refine List.flatMap_congr fun e he => ?_
  obtain ⟨⟨published, hend⟩, -⟩ := hadded e he
  exact rejected_of_registerAt hend

/-- **The dead ends of a plan** are the nodes that have refused candidates and commit none. -/
theorem deadEnds_of_plan (h : CanEnd (planner.plan session graph) (.ok plan)) :
    plan.deadEnds = graph.order.filter fun id =>
      plan.commitsNothing id && !(planner.rejections graph id).isEmpty := by
  obtain ⟨added, hids, hadded, rfl⟩ := exists_added_of_plan h
  have hnodup : (added.map Prod.fst).Nodup := by
    rw [hids]
    exact graph.order_perm.nodup_iff.mpr List.nodup_range
  have hempty : ({} : Plan).deadEnds = [] := rfl
  rw [Plan.deadEnds_addAll, hempty, List.nil_append, ← hids, List.filter_map]
  refine congrArg (List.map Prod.fst) (List.filter_congr fun e he => ?_)
  obtain ⟨⟨published, hend⟩, -⟩ := hadded e he
  rw [Function.comp_apply, Plan.commitsNothing, Plan.get?_addAll_of_mem hnodup he,
    ← rejected_of_registerAt hend]
  rfl

end Running

end Planner

end ShardPlan
