import Mathlib.Data.List.Sort
import ShardPlan.Proofs.Planning.Alignment
import ShardPlan.Proofs.Planning.Deterministic
import ShardPlan.Proofs.Planning.Order
import ShardPlan.Proofs.Planning.Records
import ShardPlan.Proofs.Planning.Safety
import ShardPlan.Proofs.Planning.Success

/-! # Predecessors come first

A node that is priced is refused for the first of its arguments that has published nothing, before anything else
is done (`register_missing`), and otherwise never for the order of the nodes (`register_avoids`): once all
arguments have published, what is looked up of them is there. While a graph is planned all arguments of a level
have published, so no plan is refused for the order of the nodes, nor for a node that is not in the graph, and
a plan has published the candidates of all nodes (`Planner.keys_of_plan`). -/

namespace ShardPlan

/-- Whether a node is refused for the order of the nodes, or for a node that is not in the graph. -/
def Refusal.isDisordered : Refusal → Bool
  | .unordered .. => true
  | .misconfigured _ reason => reason.isUnknown
  | .misfit .. => false

theorem Refusal.isForeign {refusal : Refusal} (h : refusal.isDisordered = true) (node : NodeLabel) :
    (Failure.refusal refusal).IsForeign node := by
  rintro reason ⟨⟩
  exact h

/-! ### The first argument that is missing -/

/-- The first argument of the node, in order, that has published nothing. -/
def Site.missing? (site : Site) (published : Published) : Option Nat :=
  site.node.args.find? fun id => !published.contains id

theorem find?_eraseDups {α : Type} [BEq α] [LawfulBEq α] (p : α → Bool) : ∀ list : List α,
    list.eraseDups.find? p = list.find? p
  | [] => rfl
  | a :: list => by
    rw [List.eraseDups_cons, List.find?_cons, List.find?_cons]
    cases ha : p a with
    | true => rfl
    | false =>
      have hsame : ∀ b, decide ((!b == a) = true ∧ p b = true) = p b := by
        intro b
        by_cases hb : b = a
        · simp [hb, ha]
        · simp [hb]
      dsimp only
      rw [find?_eraseDups p (list.filter fun b => !b == a), List.find?_filter]
      simp only [hsame]
termination_by list => list.length
decreasing_by exact Nat.lt_succ_of_le (List.length_filter_le _ _)

theorem checkPredecessors_eq_error {site : Site} {published : Published} {p : Node} {id : Nat}
    (hp : site.graph.node? id = some p) : ∀ {ids : List Nat},
    ids.find? (fun id => !published.contains id) = some id →
      site.checkPredecessors published ids = .error (.refusal (.unordered site.node.label p.label))
  | first :: ids, h => by
    rw [Site.checkPredecessors]
    cases hfirst : published.contains first with
    | true =>
      rw [List.find?_cons_of_neg (by simp [hfirst])] at h
      exact checkPredecessors_eq_error hp h
    | false =>
      rw [List.find?_cons_of_pos (by simp [hfirst])] at h
      cases h
      rw [Site.predecessor, hp]
      rfl

namespace Site

variable {site : Site} {published : Published}

theorem missing?_eq_none_iff :
    site.missing? published = none ↔ ∀ id ∈ site.node.args, published.contains id = true := by
  simp [missing?]

end Site

section Running

variable {m : Type → Type} [Monad m] [MonadExceptOf (Failure Refusal) m] [Runs m]
  {session : Session m} {site : Site} {published : Published} {handler : Handler} {pricing : Bool}

/-- **A node is refused for the first argument that is missing**, whatever its handler does. -/
theorem register_missing [Deterministic m] {id : Nat} {p : Node}
    (hmissing : site.missing? published = some id) (hp : site.graph.node? id = some p) :
    register session site published handler true =
      throw (.refusal (.unordered site.node.label p.label)) := by
  rw [Site.missing?, ← find?_eraseDups] at hmissing
  rw [register_true, Node.predecessors, checkPredecessors_eq_error hp hmissing]
  exact Deterministic.throw_bind _ _

/-! ### Nodes without a missing argument -/

/-- **A session that never refuses**: its oracle and its log end with a value, if not with a fault. -/
structure Session.NeverRefuses (session : Session m) : Prop where
  ask : ∀ t source target refusal, Avoids (.refusal refusal) (session.ask t source target)
  note : ∀ event refusal, Avoids (.refusal refusal) (session.note event)

section Foreign

variable (hsession : session.NeverRefuses) {refusal : Refusal}
  (hforeign : (Failure.refusal refusal).IsForeign site.node.label)
include hsession hforeign

theorem addTransition_avoids (source : Layout) (cost : StepCost) (demand : TensorType × Layout) :
    Avoids (.refusal refusal) (addTransition session site source cost demand) := by
  refine (hsession.ask demand.1 source demand.2 refusal).bind fun transition _ => ?_
  split
  · exact .pure _
  · exact .raise ((Avoids.refusal_ofChecked _).bind fun _ _ => (Avoids.refusal_ofChecked _).bind
      fun _ _ => Site.refuse_avoids hforeign rfl)

theorem reshardingCosts_avoids [LawfulMonad m] {id : Nat} {p : Node}
    (hp : site.graph.node? id = some p) (hpublished : published.contains id = true) (s : Strategy) :
    Avoids (.refusal refusal) (reshardingCosts session site published s id) := by
  obtain ⟨candidates, hcandidates⟩ := Option.isSome_iff_exists.mp hpublished
  have hprevious : Avoids (.refusal refusal) (site.predecessor id) := by
    rw [Site.predecessor, hp]
    exact .ok p
  have hfound : ∀ previous,
      Avoids (.refusal refusal) (site.candidatesOf published previous id) := by
    intro previous
    rw [Site.candidatesOf, hcandidates]
    exact .ok candidates
  exact .bind (.raise hprevious) fun previous _ => .bind (.raise (hfound previous)) fun candidates _ =>
    .bind (.raise (Site.demands_avoids hforeign previous id s)) fun demands _ =>
      .mapM fun candidate _ => .bind (.raise (Site.supply_avoids hforeign previous candidate))
        fun source _ => .foldlM fun demand _ cost =>
          addTransition_avoids hsession hforeign source cost demand

theorem register_avoids_of_isForeign [LawfulMonad m] (hnode : site.node ∈ site.graph.nodes)
    (hfails : ¬ handler.Fails (.refusal refusal))
    (hmissing : pricing = true → site.missing? published = none) :
    Avoids (.refusal refusal) (register session site published handler pricing) := by
  intro h
  rcases register_error h with ⟨hpricing, hcheck⟩ | h | ⟨event, -, h⟩ |
    ⟨hpricing, strategies, s, -, -, -, h⟩
  · have hpublished := Site.missing?_eq_none_iff.mp (hmissing hpricing)
    have hok : site.checkPredecessors published site.node.predecessors = .ok () :=
      checkPredecessors_eq_ok fun id hid => hpublished id (List.mem_eraseDups.mp hid)
    exact nomatch hok.symm.trans hcheck
  · exact hfails h
  · exact hsession.note event refusal h
  · have hpublished := Site.missing?_eq_none_iff.mp (hmissing hpricing)
    obtain ⟨id, hid, h⟩ := reshard_error h
    have hid : id ∈ site.node.args := List.mem_eraseDups.mp hid
    obtain ⟨p, hp⟩ := Graph.exists_argument hnode hid
    exact reshardingCosts_avoids hsession hforeign hp (hpublished id hid) s h

end Foreign

/-- **A node is not refused for the order of the nodes** if its arguments have published, or if it is not priced,
unless its handler does so. -/
theorem register_avoids [LawfulMonad m] (hsession : session.NeverRefuses) {refusal : Refusal}
    (hdisordered : refusal.isDisordered = true) (hnode : site.node ∈ site.graph.nodes)
    (hfails : ¬ handler.Fails (.refusal refusal))
    (hmissing : pricing = true → site.missing? published = none) :
    Avoids (.refusal refusal) (register session site published handler pricing) :=
  register_avoids_of_isForeign hsession (Refusal.isForeign hdisordered _) hnode hfails hmissing

end Running

/-! ### Plans -/

/-- **What a registry raises at a node**: it has no handler for it, or the handler fails by itself. -/
def Registry.Raises (r : Registry) (site : Site) (e : Failure Refusal) : Prop :=
  r.handler site = .error e ∨ ∃ handler, r.handler site = .ok handler ∧ handler.Fails e

theorem Registry.IsBuiltIn.not_raises_of_isForeign {r : Registry} (hr : r.IsBuiltIn) {site : Site}
    (hnode : site.node ∈ site.graph.nodes) {refusal : Refusal}
    (hforeign : (Failure.refusal refusal).IsForeign site.node.label) :
    ¬ r.Raises site (.refusal refusal) := by
  rintro (h | ⟨handler, hhandler, hfails⟩)
  · exact hr.handler_avoids site hforeign h
  · obtain ⟨factory, hfactory, hhandler⟩ := hr.exists_factory hhandler
    obtain ⟨hgenerators, hrefine⟩ := (Handler.builtIn_avoids hforeign hfactory).2 hhandler
    rcases hfails with h | ⟨generators, -, g, -, h | ⟨strategies, -, s, -, h⟩⟩
    · exact hgenerators hnode h
    · exact Avoids.refusal_ofChecked g.generate h
    · exact hrefine s h

/-- **The handlers of this library** blame no node for the order of the nodes. -/
theorem Registry.IsBuiltIn.not_raises {r : Registry} (hr : r.IsBuiltIn) {site : Site}
    (hnode : site.node ∈ site.graph.nodes) {refusal : Refusal}
    (hdisordered : refusal.isDisordered = true) : ¬ r.Raises site (.refusal refusal) :=
  hr.not_raises_of_isForeign hnode (Refusal.isForeign hdisordered _)

namespace Planner

section Running

variable {m : Type → Type} [Monad m] [MonadExceptOf (Failure Refusal) m] [Runs m] [LawfulMonad m]
  {planner : Planner} {session : Session m} {graph : Graph} {plan : Plan}

/-- **No plan is refused for the order of the nodes**, unless a handler does so. -/
theorem plan_avoids (hsession : session.NeverRefuses) {refusal : Refusal}
    (hdisordered : refusal.isDisordered = true)
    (hraises : ∀ n ∈ graph.nodes,
      ¬ planner.registry.Raises ⟨graph, n, planner.mesh⟩ (.refusal refusal)) :
    Avoids (.refusal refusal) (planner.plan session graph) := by
  refine .bind (fun h => ?_) fun plan _ => .bind (hsession.note _ refusal) fun _ _ => .pure plan
  obtain ⟨done, plan, id, hplan, hid, hargs, hfails⟩ := exists_failsAt_of_run graph.levels_isLayering h
  obtain ⟨n, hn⟩ := Graph.exists_node? hid
  have hnode : n ∈ graph.nodes := Graph.mem_nodes_of_node? hn
  rcases hfails with h | ⟨r, -, -, h⟩
  · rcases registerAt_error hn h with h | ⟨handler, hhandler, h⟩
    · exact hraises n hnode (.inl h)
    · have hmissing : (Site.mk graph n planner.mesh).missing? plan.published = none :=
        Site.missing?_eq_none_iff.mpr fun arg harg => hplan.contains (hargs n hn arg harg)
      exact register_avoids hsession hdisordered hnode
        (fun hfails => hraises n hnode (.inr ⟨handler, hhandler, hfails⟩)) (fun _ => hmissing) h
  · cases h
    exact absurd hdisordered Bool.false_ne_true

theorem keys_of_plan (h : CanEnd (planner.plan session graph) (.ok plan)) :
    plan.published.keys = graph.nodes.map Node.id := by
  have hplan := consistent_of_plan h
  have hmem : ∀ id, id ∈ plan.published.keys ↔ id ∈ List.range graph.size := by
    intro id
    rw [SortedMap.mem_keys, ← graph.order_perm.mem_iff]
    constructor
    · rintro ⟨candidates, hget⟩
      exact hplan.mem_of_get? hget
    · intro hid
      obtain ⟨r, -, hget⟩ := hplan.registered id hid
      exact ⟨r.candidates, hget⟩
  rw [graph.map_id_nodes]
  refine List.Pairwise.eq_of_mem_iff ?_ List.pairwise_lt_range hmem
  exact plan.published.keys_ascending.imp fun hlt => Nat.blt_eq.mp hlt

theorem node_of_plan (h : CanEnd (planner.plan session graph) (.ok plan)) {id : Nat}
    {candidates : Candidates} (hget : plan.published.get? id = some candidates) :
    candidates.node = id := by
  have hplan := consistent_of_plan h
  obtain ⟨r, hr, hget'⟩ := hplan.registered id (hplan.mem_of_get? hget)
  cases hget.symm.trans hget'
  exact node_of_registerAt hr

/-- **Only a missing predecessor is out of order.** A node of a graph whose handler does not say so itself is
refused for the order of the nodes exactly if it is priced and one of its arguments has published nothing. It is
then refused for the first such argument, whatever the handler does. So no plan is refused for the order of the
nodes or for a node that is not in the graph, unless the registry or a handler does so, and a plan has
published the candidates of each node under its number, and nothing else. -/
theorem unordered_iff_missing [Deterministic m] (session : Session m) (hsession : session.NeverRefuses)
    (graph : Graph) :
    (∀ n ∈ graph.nodes, ∀ mesh published handler,
      let site : Site := ⟨graph, n, mesh⟩
      (∀ id, site.missing? published = some id → ∃ p, graph.node? id = some p ∧
        register session site published handler true =
          throw (.refusal (.unordered n.label p.label))) ∧
      ∀ node previous, ¬ handler.Fails (.refusal (.unordered node previous)) →
        (site.missing? published = none → ¬ CanEnd (register session site published handler true)
          (.error (.refusal (.unordered node previous)))) ∧
        ¬ CanEnd (register session site published handler false)
          (.error (.refusal (.unordered node previous)))) ∧
    ∀ planner : Planner,
      (∀ refusal : Refusal, refusal.isDisordered = true →
        (∀ n ∈ graph.nodes, ¬ planner.registry.Raises ⟨graph, n, planner.mesh⟩ (.refusal refusal)) →
          ¬ CanEnd (planner.plan session graph) (.error (.refusal refusal))) ∧
      ∀ plan, CanEnd (planner.plan session graph) (.ok plan) →
        plan.published.keys = graph.nodes.map Node.id ∧
          ∀ id candidates, plan.published.get? id = some candidates → candidates.node = id := by
  refine ⟨fun n hn mesh published handler => ⟨fun id hmissing => ?_, fun node previous hfails => ?_⟩,
    fun planner => ⟨fun refusal hdisordered hraises => plan_avoids hsession hdisordered hraises,
      fun plan h => ⟨keys_of_plan h, fun id candidates hget => node_of_plan h hget⟩⟩⟩
  · obtain ⟨p, hp⟩ := Graph.exists_argument hn (List.mem_of_find?_eq_some hmissing)
    exact ⟨p, hp, register_missing hmissing hp⟩
  · exact ⟨fun hmissing => register_avoids hsession rfl hn hfails fun _ => hmissing,
      register_avoids hsession rfl hn hfails nofun⟩

end Running

end Planner

theorem Session.live_neverRefuses (logged : Bool) (oracle : Oracle Checked) :
    (Session.live logged (.remembered (.ofChecked oracle))).NeverRefuses := by
  constructor
  · intro t source target refusal
    rw [ask_live]
    exact Oracle.remembered_avoids (.refusal_ofChecked _)
  · intro event refusal
    cases logged with
    | false => exact .pure ()
    | true =>
      refine .bind (.raise (.refusal_ofChecked event.text)) fun text _ => ?_
      rintro ⟨diary, diary', hrun⟩
      exact nomatch congrArg Prod.fst hrun

theorem Session.free_neverRefuses : Session.free.NeverRefuses :=
  ⟨fun _ _ _ _ => .pure _, fun _ _ => .pure ()⟩

/-- A sum of which nothing has been planned, and then the plan of its graph. -/
theorem unordered_iff_missing_of_joining :
    ∃ n ∈ Graph.joining.nodes, Session.free.NeverRefuses ∧
      (Site.mk .joining n .square).missing? .empty = some 2 ∧
      register .free ⟨.joining, n, .square⟩ .empty (.single .repeating) true =
        (.error (.refusal (.unordered ⟨3, "s"⟩ ⟨2, "f"⟩)) : Planned Registration) ∧
      (∀ node previous, register .free ⟨.joining, n, .square⟩ .empty (.single .repeating) false ≠
        (.error (.refusal (.unordered node previous)) : Planned Registration)) ∧
      (∀ refusal : Refusal, refusal.isDisordered = true →
        Planner.square.plan .free .joining ≠ .error (.refusal refusal)) ∧
      ∃ plan, Planner.square.plan .free .joining = .ok plan ∧ plan.published.keys = [0, 1, 2, 3] := by
  have hn : (⟨3, "s", .function "add", [2, 1], [], some ⟨[8, 4], .f32⟩⟩ : Node) ∈
      Graph.joining.nodes := by simp [Graph.joining]
  have hregistry : Planner.square.registry.IsBuiltIn := Registry.standard_isBuiltIn
  obtain ⟨plan, hplan⟩ := joining_planned
  obtain ⟨hnodes, hplans⟩ :=
    Planner.unordered_iff_missing .free Session.free_neverRefuses .joining
  obtain ⟨hmissing, hpresent⟩ := hnodes _ hn .square .empty (.single .repeating)
  obtain ⟨p, hp, hregister⟩ := hmissing 2 rfl
  cases hp
  obtain ⟨hrefused, hkeys⟩ := hplans .square
  refine ⟨_, hn, Session.free_neverRefuses, rfl, hregister, fun node previous => ?_,
    fun refusal hdisordered => ?_, plan, hplan, (hkeys plan hplan).1⟩
  · exact (hpresent node previous (Handler.not_fails rfl ⟨_, rfl⟩ fun _ s _ => ⟨_, rfl⟩)).2
  · refine hrefused refusal hdisordered fun n hn => ?_
    exact hregistry.not_raises hn hdisordered

end ShardPlan
