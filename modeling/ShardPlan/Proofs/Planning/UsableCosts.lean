import ShardPlan.Proofs.Arithmetic.FloatSums
import ShardPlan.Proofs.Planning.Precedence
import ShardPlan.Proofs.Planning.Unpriced

/-! # Prices that can be used

Each answer of the oracle is looked at before it is added to a price, and the price is not looked at again. So
the prices of a plan are sums of usable answers (`comesUsably_of_register`): they are not negative, and one that
is made of a single answer is usable, but a sum of several may overflow. A node that meets an unusable answer is
refused (`not_registered_of_meetsUnusable`), and the plan ends with this node or with one before it in its
level, which is refused for what it is as well (`Planner.Consistent.blames`). -/

namespace ShardPlan

section Running

variable {m : Type → Type} [Monad m] [MonadExceptOf (Failure Refusal) m] [Runs m]
  {session : Session m} {site : Site} {published : Published} {handler : Handler}

/-! ### Prices -/

/-- **A price** is not negative, and usable if it is made of a single answer. -/
theorem Strategy.ComesUsably.price {s c : Strategy} {p : Nat} {cost : StepCost}
    (h : s.ComesUsably session p c cost) :
    cost.isNonneg = true ∧ ((s.argumentsFrom p).length = 1 → cost.isUsable = true) := by
  obtain ⟨result, transitions, -, htransitions, husable, rfl⟩ := h
  refine ⟨StepCost.isNonneg_sum (List.forall_mem_map.mpr husable), fun hlength => ?_⟩
  obtain ⟨tr, rfl⟩ := List.length_eq_one_iff.mp (htransitions.length_eq.symm.trans hlength)
  exact StepCost.isUsable_sum_singleton (husable tr (by simp))

theorem comesUsably_of_register [LawfulMonad m] {r : Registration}
    (h : CanEnd (register session site published handler true) (.ok r)) {priced : Strategy}
    (hmem : priced ∈ r.candidates.strategies) {p : Nat} (hp : p ∈ site.node.args) :
    ∃ producers costs, published.get? p = some producers ∧ priced.resharding.get? p = some costs ∧
      List.Forall₂ (priced.ComesUsably session p) producers.strategies costs := by
  obtain ⟨-, strategies, -, hjudged⟩ := register_ok h
  obtain ⟨s, -, -, hpriced⟩ := hjudged.exists_candidate priced hmem
  obtain ⟨hsame, hcosts, -⟩ := reshard_ok hpriced
  obtain ⟨costs, hend, hget⟩ := hcosts p (List.mem_eraseDups.mpr hp)
  obtain ⟨-, producers, hproducers, hall⟩ := reshardingCosts_usable hend
  rw [hsame]
  exact ⟨producers, costs, hproducers, hget, hall⟩

theorem mem_args_of_price [LawfulMonad m] {registry : Registry} (hregistry : registry.IsBuiltIn)
    (hhandler : registry.handler site = .ok handler) {r : Registration}
    (h : CanEnd (register session site published handler true) (.ok r)) {priced : Strategy}
    (hmem : priced ∈ r.candidates.strategies) {p : Nat} {costs : List StepCost}
    (hcosts : priced.resharding.get? p = some costs) : p ∈ site.node.args := by
  obtain ⟨factory, hfactory, hhandler⟩ := hregistry.exists_factory hhandler
  obtain ⟨-, strategies, hcandidates, hjudged⟩ := register_ok h
  obtain ⟨s, hs, -, hpriced⟩ := hjudged.exists_candidate priced hmem
  have hempty : s.resharding = .empty :=
    Handler.unpriced_of_candidates hfactory hhandler hcandidates s hs
  have hkey : p ∈ priced.resharding.keys := SortedMap.mem_keys.mpr ⟨costs, hcosts⟩
  exact List.mem_eraseDups.mp ((keys_of_reshard hpriced hempty p).mp hkey)

end Running

/-! ### Unusable answers -/

/-- The session that gets its answers from `ask` and keeps no log. -/
def Session.answering (ask : TensorType → Layout → Layout → Transition) : Session Planned :=
  .silent fun t source target => .ok (ask t source target)

theorem Session.answering_neverRefuses {ask : TensorType → Layout → Layout → Transition} :
    (answering ask).NeverRefuses :=
  ⟨fun _ _ _ _ => .pure _, fun _ _ => .pure ()⟩

theorem Session.answering_isSafe {ask : TensorType → Layout → Layout → Transition} {mesh : Mesh} :
    (answering ask).IsSafe mesh :=
  ⟨fun _ _ _ => .pure _, silent_canTell _⟩

namespace Planner

/-- **A node meets an unusable answer**: one of its candidates fits and takes an operand from an argument, which
has published a strategy that the operand comes from at a cost that cannot be used. -/
def MeetsUnusable (planner : Planner) (ask : TensorType → Layout → Layout → Transition) (graph : Graph)
    (published : Published) (id : Nat) : Prop :=
  ∃ site strategies, planner.candidatesAt graph id = .ok (site, strategies) ∧
    ∃ s ∈ strategies, site.misfit? s = .ok none ∧
      ∃ p ∈ site.node.args, ∃ producers, published.get? p = some producers ∧
        ∃ c ∈ producers.strategies, ∃ result, c.result? = some result ∧
          ∃ e ∈ s.argumentsFrom p, ∃ t, e.1.tensor = some t ∧
            (ask t result.2 e.2).cost.isUsable = false

/-- **A node that meets an unusable answer** is not registered. -/
theorem not_registered_of_meetsUnusable {planner : Planner}
    (hpricing : planner.options.priceResharding = true)
    {ask : TensorType → Layout → Layout → Transition} {graph : Graph} {published : Published} {id : Nat}
    (h : planner.MeetsUnusable ask graph published id) (r : Registration) :
    planner.registerAt (.answering ask) graph published id ≠ .ok r := by
  obtain ⟨site, strategies, hcandidates, s, hs, hfit, p, hp, producers, hproducers, c, hc, result,
    hresult, e, he, t, ht, hunusable⟩ := h
  obtain ⟨handler, hat, hlisted⟩ := candidatesAt_ok hcandidates
  obtain ⟨n, hn, rfl, hhandler⟩ := handlerAt_ok hat
  intro hregister
  obtain ⟨n', handler', hn', hhandler', hend⟩ := registerAt_ok (m := Planned) hregister
  cases hn.symm.trans hn'
  cases hhandler.symm.trans hhandler'
  rw [hpricing] at hend
  obtain ⟨-, strategies', hlisted', hjudged⟩ := register_ok hend
  cases hlisted.symm.trans hlisted'
  obtain ⟨priced, hpriced, hsame⟩ := hjudged.exists_committed hs hfit
  obtain ⟨producers', costs, hproducers', -, hall⟩ := comesUsably_of_register hend hpriced hp
  cases hproducers.symm.trans hproducers'
  obtain ⟨cost, -, result', transitions, hresult', htransitions, husable, -⟩ := (mem_of_forall₂ hall).2 c hc
  cases hresult.symm.trans hresult'
  have he' : e ∈ priced.argumentsFrom p := by rwa [Strategy.argumentsFrom, hsame.layouts_eq]
  obtain ⟨tr, htr, t', ht', hask⟩ := (mem_of_forall₂ htransitions).2 e he'
  cases ht.symm.trans ht'
  cases hask
  exact Bool.false_ne_true (hunusable.symm.trans (husable _ htr))

/-! ### Where a plan ends -/

/-- **The failure lies with one of the nodes**: it is refused for what it is. Otherwise there is a fault, and the
sizes of the graph cannot be counted. -/
def Blames (graph : Graph) (ids : List Nat) (e : Failure Refusal) : Prop :=
  (∃ id ∈ ids, ∃ reason, e = .refusal (.misconfigured (label graph id) reason)) ∨
    ¬ graph.IsBounded ∧ ∃ f, e = .fault f

theorem label_eq {graph : Graph} {id : Nat} {n : Node} (hn : graph.node? id = some n) :
    label graph id = n.label := by
  rw [label, hn]

section Running

variable {m : Type → Type} [Monad m] [MonadExceptOf (Failure Refusal) m] [Runs m] [LawfulMonad m]
  {planner : Planner} {session : Session m} {graph : Graph} {published : Published} {plan : Plan}
  {done : List Nat} {id : Nat} {e : Failure Refusal}

theorem refusal_of_registerAt (hregistry : planner.registry.IsBuiltIn)
    (hsession : session.NeverRefuses) {n : Node} (hn : graph.node? id = some n)
    (hargs : ∀ arg ∈ n.args, published.contains arg = true) {refusal : Refusal}
    (h : CanEnd (planner.registerAt session graph published id) (.error (.refusal refusal))) :
    ∃ reason, refusal = .misconfigured n.label reason := by
  by_contra hother
  have hforeign : (Failure.refusal refusal).IsForeign n.label :=
    fun reason heq => absurd ⟨reason, Failure.refusal.inj heq⟩ hother
  have hnode : n ∈ graph.nodes := Graph.mem_nodes_of_node? hn
  rcases registerAt_error hn h with hrefused | ⟨handler, hhandler, h⟩
  · exact hregistry.handler_avoids _ hforeign hrefused
  · have hfails : ¬ handler.Fails (.refusal refusal) := fun hfails =>
      hregistry.not_raises_of_isForeign hnode hforeign (.inr ⟨handler, hhandler, hfails⟩)
    exact register_avoids_of_isForeign hsession hforeign hnode hfails
      (fun _ => Site.missing?_eq_none_iff.mpr hargs) h

/-- **What ends a plan at a node** lies with the node. -/
theorem Consistent.blames (hregistry : planner.registry.IsBuiltIn) (hsession : session.NeverRefuses)
    (hsafe : session.IsSafe planner.mesh) (hplan : planner.Consistent session graph done plan)
    (hid : id < graph.size) (hargs : ∀ n, graph.node? id = some n → ∀ arg ∈ n.args, arg ∈ done)
    (h : planner.FailsAt session graph plan.published id e) : Blames graph [id] e := by
  rcases h with h | ⟨r, -, -, rfl⟩
  · cases e with
    | fault f =>
      exact .inr ⟨fun hgraph => hplan.registerAt_onlyRefuses hregistry hsafe hgraph hid f h, f, rfl⟩
    | refusal refusal =>
      obtain ⟨n, hn⟩ := Graph.exists_node? hid
      obtain ⟨reason, rfl⟩ := refusal_of_registerAt hregistry hsession hn
        (fun arg harg => hplan.contains (hargs n hn arg harg)) h
      exact .inl ⟨id, by simp, reason, by rw [label_eq hn]⟩
  · exact .inl ⟨id, by simp, _, rfl⟩

omit [LawfulMonad m] in
theorem foldlM_settleAt_of_not_registered {after : List Nat}
    (hid : ∀ r, ¬ CanEnd (planner.registerAt session graph published id) (.ok r)) :
    ∀ {before : List Nat} {results : List (Except Refusal Registration)} {plan : Plan},
      List.Forall₂ (fun id result => CanEnd (planner.registerAt session graph published id)
        (result.mapError .refusal)) (before ++ id :: after) results →
      ∃ e, ((before ++ id :: after).zip results).foldlM (planner.settleAt graph) plan = .error e ∧
        ∃ first ∈ before ++ [id], planner.FailsAt session graph published first e
  | [], _, plan, .cons (b := result) hend _ => by
    cases result with
    | ok r => exact absurd hend (hid r)
    | error refusal => exact ⟨.refusal refusal, rfl, id, by simp, .inl hend⟩
  | first :: before, _, plan, .cons (b := result) hend hends => by
    rw [List.cons_append, List.zip_cons_cons, List.foldlM_cons]
    cases hnext : planner.settleAt graph plan (first, result) with
    | error e => exact ⟨e, rfl, first, by simp, failsAt_of_settleAt hend hnext⟩
    | ok next =>
      obtain ⟨e, hfold, first', hfirst', hfails⟩ := foldlM_settleAt_of_not_registered hid hends
      exact ⟨e, hfold, first', List.mem_cons_of_mem first hfirst', hfails⟩

/-- **A level with a node that is not registered** ends with this node or with one before it, unless there is a
fault at some node. -/
theorem planLevel_of_not_registered {before after : List Nat}
    (hid : ∀ r, ¬ CanEnd (planner.registerAt session graph plan.published id) (.ok r))
    {o : Planned Plan} (h : CanEnd (planner.planLevel session graph plan (before ++ id :: after)) o) :
    ∃ e, o = .error e ∧ ((∃ other ∈ before ++ id :: after, ∃ f, e = .fault f ∧
      planner.FailsAt session graph plan.published other e) ∨
        ∃ first ∈ before ++ [id], planner.FailsAt session graph plan.published first e) := by
  rcases Runs.of_bind h with ⟨results, hresults, hsettled⟩ | ⟨e, hattempts, rfl⟩
  · obtain ⟨e, hfold, hfirst⟩ := foldlM_settleAt_of_not_registered hid (forall₂_of_attempts hresults)
    exact ⟨e, hsettled.of_raise.symm.trans hfold, .inr hfirst⟩
  · refine ⟨e, rfl, .inl ?_⟩
    obtain ⟨other, hother, hend⟩ := hattempts.mapM_error
    rcases hend.of_attempt with ⟨f, hfault, hend'⟩ | ⟨r, hr, -⟩
    · cases hfault
      exact ⟨other, hother, f, rfl, .inl hend'⟩
    · exact nomatch hr

/-- **The prices of a plan** are sums of usable answers, for each strategy that an argument has published. -/
theorem prices_of_plan (hregistry : planner.registry.IsBuiltIn)
    (hpricing : planner.options.priceResharding = true)
    (h : CanEnd (planner.plan session graph) (.ok plan)) {consumers : Candidates}
    (hconsumers : plan.published.get? id = some consumers) {s : Strategy} (hs : s ∈ consumers.strategies)
    {p : Nat} {costs : List StepCost} (hcosts : s.resharding.get? p = some costs) :
    ∃ producers, plan.published.get? p = some producers ∧
      List.Forall₂ (s.ComesUsably session p) producers.strategies costs := by
  have hplan := consistent_of_plan h
  obtain ⟨r, hr, hget⟩ := hplan.registered id (hplan.mem_of_get? hconsumers)
  cases hconsumers.symm.trans hget
  obtain ⟨n, handler, -, hhandler, hend⟩ := registerAt_ok hr
  rw [hpricing] at hend
  have hp : p ∈ n.args := mem_args_of_price hregistry hhandler hend hs hcosts
  obtain ⟨producers, costs', hproducers, hcosts', hall⟩ := comesUsably_of_register hend hs hp
  cases hcosts.symm.trans hcosts'
  exact ⟨producers, hproducers, hall⟩

theorem Blames.mono {ids ids' : List Nat} (h : Blames graph ids e) (hids : ids ⊆ ids') :
    Blames graph ids' e := by
  refine h.imp_left ?_
  rintro ⟨id, hid, hrefusal⟩
  exact ⟨id, hids hid, hrefusal⟩

variable {past rest : List (List Nat)} {level : List Nat}

theorem blames_of_failsAt (hregistry : planner.registry.IsBuiltIn) (hsession : session.NeverRefuses)
    (hsafe : session.IsSafe planner.mesh) (hlevels : graph.levels = past ++ level :: rest)
    (hreached : CanEnd (past.foldlM (planner.planLevel session graph) {}) (.ok plan))
    (hid : id ∈ level) (hfails : planner.FailsAt session graph plan.published id e) :
    Blames graph [id] e := by
  have hlayers : graph.IsLayering (past ++ level :: rest) := hlevels ▸ graph.levels_isLayering
  have hmem : id ∈ (past ++ level :: rest).flatten := List.mem_flatten.mpr ⟨level, by simp, hid⟩
  exact (consistent_of_past hlayers hreached).blames hregistry hsession hsafe
    (hlayers.mem_flatten_iff.mp hmem) (fun n hn => hlayers.args_mem rfl hid hn) hfails

/-- **A level that cannot be planned** because of one of its nodes ends with this node or with one before it, which
is to blame. -/
theorem planLevel_blames (hregistry : planner.registry.IsBuiltIn) (hsession : session.NeverRefuses)
    (hsafe : session.IsSafe planner.mesh) {before after : List Nat}
    (hlevels : graph.levels = past ++ (before ++ id :: after) :: rest)
    (hreached : CanEnd (past.foldlM (planner.planLevel session graph) {}) (.ok plan))
    (hid : ∀ r, ¬ CanEnd (planner.registerAt session graph plan.published id) (.ok r))
    {o : Planned Plan} (h : CanEnd (planner.planLevel session graph plan (before ++ id :: after)) o) :
    ∃ e, o = .error e ∧ Blames graph (before ++ [id]) e := by
  obtain ⟨e, rfl, hends⟩ := planLevel_of_not_registered hid h
  refine ⟨e, rfl, ?_⟩
  rcases hends with ⟨other, hother, f, rfl, hfails⟩ | ⟨first, hfirst, hfails⟩
  · -- a fault is not a refusal, whichever node it happens at
    rcases blames_of_failsAt hregistry hsession hsafe hlevels hreached hother hfails with
      ⟨_, -, _, hrefusal⟩ | hfault
    · exact nomatch hrefusal
    · exact .inr hfault
  · have hmem : first ∈ before ++ id :: after := by
      rw [List.append_cons]
      exact List.mem_append_left after hfirst
    have hblames := blames_of_failsAt hregistry hsession hsafe hlevels hreached hmem hfails
    exact hblames.mono (by simpa using hfirst)

/-- **The prices of a plan are added up from usable answers.** So they are not negative, and a price that cannot
be used is infinite: its sum has overflowed, which takes at least two operands. A node that meets an unusable
answer is refused for what it is, and the plan ends with this node or with an earlier one of its level that is
refused as well. Only where the sizes of the graph cannot be counted there may be a fault instead. -/
theorem prices_from_usable_answers (planner : Planner) (hregistry : planner.registry.IsBuiltIn)
    (hpricing : planner.options.priceResharding = true) (graph : Graph) :
    (∀ (session : Session m) plan, CanEnd (planner.plan session graph) (.ok plan) →
      ∀ id consumers, plan.published.get? id = some consumers → ∀ s ∈ consumers.strategies,
        ∀ p costs, s.resharding.get? p = some costs →
          ∃ producers, plan.published.get? p = some producers ∧
            List.Forall₂ (fun c cost => s.ComesUsably session p c cost ∧ cost.isNonneg = true ∧
              cost.isUsable = cost.isFinite ∧
                ((s.argumentsFrom p).length = 1 → cost.isUsable = true)) producers.strategies costs) ∧
    ∀ ask past before id after rest reached, graph.levels = past ++ (before ++ id :: after) :: rest →
      past.foldlM (planner.planLevel (.answering ask) graph) {} = .ok reached →
      planner.MeetsUnusable ask graph reached.published id →
        (∃ e, planner.registerAt (.answering ask) graph reached.published id = .error e ∧
          Blames graph [id] e) ∧
        ∃ e, planner.plan (.answering ask) graph = .error e ∧ Blames graph (before ++ [id]) e := by
  refine ⟨fun session plan h id consumers hconsumers s hs p costs hcosts => ?_,
    fun ask past before id after rest reached hlevels hreached hmeets => ⟨?_, ?_⟩⟩
  · obtain ⟨producers, hproducers, hall⟩ := prices_of_plan hregistry hpricing h hconsumers hs hcosts
    refine ⟨producers, hproducers, hall.imp fun c cost hcomes => ?_⟩
    obtain ⟨hnonneg, hsingle⟩ := hcomes.price
    exact ⟨hcomes, hnonneg, StepCost.isUsable_eq_isFinite hnonneg, hsingle⟩
  · cases hr : planner.registerAt (.answering ask) graph reached.published id with
    | ok r => exact absurd hr (not_registered_of_meetsUnusable hpricing hmeets r)
    | error e =>
      exact ⟨e, rfl, blames_of_failsAt hregistry Session.answering_neverRefuses
        Session.answering_isSafe hlevels hreached (by simp) (.inl hr)⟩
  · obtain ⟨e, hlevel, hblames⟩ := planLevel_blames (m := Planned) hregistry
      Session.answering_neverRefuses Session.answering_isSafe hlevels hreached
      (not_registered_of_meetsUnusable hpricing hmeets) rfl
    refine ⟨e, ?_, hblames⟩
    rw [plan, hlevels, List.foldlM_append, hreached]
    change (List.foldlM _ reached _ >>= _) = _
    rw [List.foldlM_cons, hlevel]
    rfl

end Running

end Planner

/-- An input, and its sum with itself. -/
def Graph.doubling : Graph where
  nodes := [⟨0, "x", .input, [], [1], some ⟨[4], .f32⟩⟩,
    ⟨1, "y", .function "add", [0, 0], [], some ⟨[4], .f32⟩⟩]
  owner := none
  map_id_nodes := rfl
  args_lt := by decide

theorem Graph.doubling_isBounded : Graph.doubling.IsBounded := by
  refine ⟨fun n hn t ht => ?_, nofun⟩
  have hshape : t = ⟨[4], .f32⟩ := by
    simp only [doubling, List.mem_cons, List.not_mem_nil, or_false] at hn
    rcases hn with rfl | rfl
    · exact (Option.some.inj ht).symm
    · exact (Option.some.inj ht).symm
  rw [hshape]
  exact ⟨by decide, by decide, _, rfl⟩

/-- The session whose oracle always answers with the same cost. -/
def Session.always (cost : StepCost) : Session Planned := .answering fun _ _ _ => ⟨cost, []⟩

/-- A cost that can be used, unlike two of it. -/
def StepCost.huge : StepCost := ⟨1e308, 0.0, 1e308⟩

/-- A cost that is no number. -/
def StepCost.invalid : StepCost := ⟨0.0 / 0.0, 0.0, 0.0 / 0.0⟩

/-- Whether a strategy of the node `id` has a price for the argument `p` that cannot be used. -/
def Plan.hasUnusable (plan : Plan) (id p : Nat) : Bool :=
  (plan.published.get? id).any fun consumers => consumers.strategies.any fun s =>
    (s.resharding.get? p).any fun costs => costs.any fun cost => !cost.isUsable

theorem Plan.hasUnusable_iff {plan : Plan} {id p : Nat} :
    plan.hasUnusable id p = true ↔ ∃ consumers, plan.published.get? id = some consumers ∧
      ∃ s ∈ consumers.strategies, ∃ costs, s.resharding.get? p = some costs ∧
        ∃ cost ∈ costs, cost.isUsable = false := by
  simp only [hasUnusable, Option.any_eq_true, List.any_eq_true, Bool.not_eq_true']

theorem doubling_planned : ∃ plan, Planner.square.plan (.always .huge) .doubling = .ok plan ∧
    plan.hasUnusable 1 0 = true := by
  have hplan : (Planner.square.plan (.always .huge) .doubling).toOption.any
      (Plan.hasUnusable · 1 0) = true := by decide +kernel
  cases h : Planner.square.plan (.always .huge) .doubling with
  | error e =>
    rw [h] at hplan
    exact nomatch hplan
  | ok plan =>
    rw [h] at hplan
    exact ⟨plan, rfl, hplan⟩

/-- **A price of a plan may be infinite**: each answer is usable, and the sum of two is not. -/
theorem infinite_price_of_doubling :
    StepCost.huge.isUsable = true ∧
      ∃ plan, Planner.square.plan (.always .huge) .doubling = .ok plan ∧
        ∃ consumers, plan.published.get? 1 = some consumers ∧ ∃ s ∈ consumers.strategies,
          ∃ costs, s.resharding.get? 0 = some costs ∧ ∃ cost ∈ costs, cost.isUsable = false := by
  have husable : StepCost.huge.isUsable = true := by decide +kernel
  obtain ⟨plan, hplan, hunusable⟩ := doubling_planned
  exact ⟨husable, plan, hplan, Plan.hasUnusable_iff.mp hunusable⟩

theorem doubling_meetsUnusable : ∃ reached,
    [[0]].foldlM (Planner.square.planLevel (.always .invalid) .doubling) {} = .ok reached ∧
      Planner.square.MeetsUnusable (fun _ _ _ => ⟨.invalid, []⟩) .doubling reached.published 1 := by
  refine ⟨_, rfl, _, _, rfl, _, .head _, rfl, 0, by decide, _, rfl, _, .head _, _, rfl, _, .head _,
    _, rfl, ?_⟩
  decide +kernel

/-- Prices of a sum that overflow, and a sum that is refused for an answer that is no number. -/
theorem prices_from_usable_answers_of_doubling :
    Planner.square.registry.IsBuiltIn ∧ Planner.square.options.priceResharding = true ∧
      (∃ plan, Planner.square.plan (.always .huge) .doubling = .ok plan ∧
        ∃ consumers, plan.published.get? 1 = some consumers ∧ ∃ s ∈ consumers.strategies,
          ∃ costs, s.resharding.get? 0 = some costs ∧
            ∃ producers, plan.published.get? 0 = some producers ∧
              List.Forall₂ (fun c cost => s.ComesUsably (m := Planned) (.always .huge) 0 c cost ∧
                cost.isNonneg = true ∧ cost.isUsable = cost.isFinite) producers.strategies costs) ∧
      ∃ reason, Planner.square.plan (.always .invalid) .doubling =
        .error (.refusal (.misconfigured ⟨1, "y"⟩ reason)) := by
  have hregistry : Planner.square.registry.IsBuiltIn := Registry.standard_isBuiltIn
  obtain ⟨hprices, hmeets⟩ :=
    Planner.prices_from_usable_answers (m := Planned) .square hregistry rfl .doubling
  refine ⟨hregistry, rfl, ?_, ?_⟩
  · obtain ⟨plan, hplan, hunusable⟩ := doubling_planned
    obtain ⟨consumers, hconsumers, s, hs, costs, hcosts, -⟩ := Plan.hasUnusable_iff.mp hunusable
    obtain ⟨producers, hproducers, hall⟩ :=
      hprices (.always .huge) plan hplan 1 consumers hconsumers s hs 0 costs hcosts
    exact ⟨plan, hplan, consumers, hconsumers, s, hs, costs, hcosts, producers, hproducers,
      hall.imp fun c cost h => ⟨h.1, h.2.1, h.2.2.1⟩⟩
  · obtain ⟨reached, hreached, hunusable⟩ := doubling_meetsUnusable
    obtain ⟨-, e, he, hblames⟩ := hmeets _ [[0]] [] 1 [] [] reached rfl hreached hunusable
    rcases hblames with ⟨id, hid, reason, rfl⟩ | ⟨hunbounded, -⟩
    · rw [List.nil_append, List.mem_singleton] at hid
      subst hid
      exact ⟨reason, he⟩
    · exact absurd Graph.doubling_isBounded hunbounded

end ShardPlan
