import ShardPlan.Planning.Plan
import ShardPlan.Proofs.Network.Levels
import ShardPlan.Proofs.Planning.Registration

/-! # What a plan consists of

While a graph is planned, what is published is *consistent*: registering a published node once more, now
against all that is published, gives what it published (`Planner.Consistent`). A level keeps this
(`Planner.Consistent.planLevel`), since it changes nothing at the arguments of nodes that came before, and so
does a run over any layers of the graph (`Planner.consistent_of_run`). A run that fails does so at a node
whose arguments are published (`Planner.exists_failsAt_of_run`). -/

namespace ShardPlan

/-! ### Adding nodes to a plan -/

namespace Plan

/-- The plan with a node that was registered. -/
def add (plan : Plan) (id : Nat) (r : Registration) : Plan where
  published := plan.published.insert id r.candidates
  diagnostics := plan.diagnostics ++ r.rejected
  deadEnds := if r.isDeadEnd then plan.deadEnds ++ [id] else plan.deadEnds

/-- The plan with nodes that were registered, in turn. -/
def addAll (plan : Plan) (added : List (Nat × Registration)) : Plan :=
  added.foldl (fun plan e => plan.add e.1 e.2) plan

theorem get?_add {plan : Plan} {id id' : Nat} {r : Registration} :
    (plan.add id r).published.get? id' =
      if id = id' then some r.candidates else plan.published.get? id' :=
  SortedMap.get?_insert ..

theorem published_addAll : ∀ {added : List (Nat × Registration)} {plan : Plan},
    (plan.addAll added).published =
      added.foldl (fun published e => published.insert e.1 e.2.candidates) plan.published
  | [], _ => rfl
  | _ :: added, _ => @published_addAll added _

theorem get?_addAll_of_not_mem {added : List (Nat × Registration)} {plan : Plan} {id : Nat}
    (h : id ∉ added.map Prod.fst) :
    (plan.addAll added).published.get? id = plan.published.get? id := by
  rw [published_addAll]
  exact SortedMap.get?_foldl_insert_of_not_mem h

theorem get?_addAll_of_mem {added : List (Nat × Registration)} {plan : Plan} {e : Nat × Registration}
    (hnodup : (added.map Prod.fst).Nodup) (he : e ∈ added) :
    (plan.addAll added).published.get? e.1 = some e.2.candidates := by
  rw [published_addAll]
  exact SortedMap.get?_foldl_insert_of_mem hnodup he

theorem settle_ok {options : Options} {label : NodeLabel} {plan : Plan} {id : Nat} {r : Registration} :
    plan.settle options label id (.ok r) =
      if r.isDeadEnd && options.failOnDeadEnd then
        .error (.refusal (.misconfigured label (.allRejected r.rejected.length)))
      else .ok (plan.add id r) := rfl

theorem settle_eq_ok_iff {options : Options} {label : NodeLabel} {plan plan' : Plan} {id : Nat}
    {result : Except Refusal Registration} :
    plan.settle options label id result = .ok plan' ↔ ∃ r, result = .ok r ∧
      (r.isDeadEnd && options.failOnDeadEnd) = false ∧ plan' = plan.add id r := by
  cases result with
  | error e => exact ⟨nofun, nofun⟩
  | ok r =>
    rw [settle_ok]
    split
    · rename_i hdead
      refine ⟨nofun, ?_⟩
      rintro ⟨_, ⟨⟩, hlive, -⟩
      exact nomatch hlive.symm.trans hdead
    · rename_i hlive
      refine ⟨fun h => ⟨r, rfl, Bool.eq_false_iff.mpr hlive, (Except.ok.inj h).symm⟩, ?_⟩
      rintro ⟨_, ⟨⟩, -, rfl⟩
      rfl

theorem settle_ok_error {options : Options} {label : NodeLabel} {plan : Plan} {id : Nat}
    {r : Registration} {e : Failure Refusal} (h : plan.settle options label id (.ok r) = .error e) :
    (r.isDeadEnd && options.failOnDeadEnd) = true ∧
      e = .refusal (.misconfigured label (.allRejected r.rejected.length)) := by
  rw [settle_ok] at h
  split at h
  · rename_i hdead
    cases h
    exact ⟨hdead, rfl⟩
  · exact nomatch h

end Plan

namespace Planner

section Running

variable {m : Type → Type} [Monad m] [MonadExceptOf (Failure Refusal) m] [Runs m]
  {planner : Planner} {session : Session m} {graph : Graph} {published published' : Published}
  {plan plan' : Plan} {level : List Nat} {id : Nat}

/-! ### Registering one node -/

theorem handlerAt_eq {n : Node} (hn : graph.node? id = some n) :
    planner.handlerAt graph id = (planner.registry.handler ⟨graph, n, planner.mesh⟩ >>= fun handler =>
      pure (⟨graph, n, planner.mesh⟩, handler)) := by
  rw [handlerAt, hn]

theorem handlerAt_ok {site : Site} {handler : Handler}
    (h : planner.handlerAt graph id = .ok (site, handler)) :
    ∃ n, graph.node? id = some n ∧ site = ⟨graph, n, planner.mesh⟩ ∧
      planner.registry.handler site = .ok handler := by
  cases hn : graph.node? id with
  | none =>
    rw [handlerAt, hn] at h
    exact nomatch h
  | some n =>
    rw [handlerAt_eq hn] at h
    obtain ⟨handler', hhandler, h⟩ := bind_eq_ok_iff.mp h
    cases h
    exact ⟨n, rfl, rfl, hhandler⟩

/-- **A node that is registered** is in the graph and has a handler. -/
theorem registerAt_ok {r : Registration}
    (h : CanEnd (planner.registerAt session graph published id) (.ok r)) :
    ∃ n handler, graph.node? id = some n ∧
      planner.registry.handler ⟨graph, n, planner.mesh⟩ = .ok handler ∧
        CanEnd (register session ⟨graph, n, planner.mesh⟩ published handler
          planner.options.priceResharding) (.ok r) := by
  obtain ⟨⟨site, handler⟩, hat, h⟩ := h.bind_ok
  obtain ⟨n, hn, rfl, hhandler⟩ := handlerAt_ok hat.of_raise
  exact ⟨n, handler, hn, hhandler, h⟩

theorem registerAt_error {n : Node} (hn : graph.node? id = some n) {e : Failure Refusal}
    (h : CanEnd (planner.registerAt session graph published id) (.error e)) :
    planner.registry.handler ⟨graph, n, planner.mesh⟩ = .error e ∨
      ∃ handler, planner.registry.handler ⟨graph, n, planner.mesh⟩ = .ok handler ∧
        CanEnd (register session ⟨graph, n, planner.mesh⟩ published handler
          planner.options.priceResharding) (.error e) := by
  rcases h.bind_error with h | ⟨⟨site, handler⟩, hat, h⟩
  · have hat := h.of_raise
    rw [handlerAt_eq hn] at hat
    cases hhandler : planner.registry.handler ⟨graph, n, planner.mesh⟩ with
    | error e' =>
      rw [hhandler] at hat
      cases hat
      exact .inl rfl
    | ok handler =>
      rw [hhandler] at hat
      exact nomatch hat
  · obtain ⟨n', hn', rfl, hhandler⟩ := handlerAt_ok hat.of_raise
    cases hn.symm.trans hn'
    exact .inr ⟨handler, hhandler, h⟩

/-- **Registering a node reads** what its arguments have published and nothing else. -/
theorem registerAt_congr (h : ∀ n, graph.node? id = some n → ∀ arg ∈ n.args,
      published.get? arg = published'.get? arg) :
    planner.registerAt session graph published id =
      planner.registerAt session graph published' id := by
  refine Runs.bind_congr fun e he => ?_
  obtain ⟨n, hn, hsite, -⟩ := handlerAt_ok he.of_raise
  refine register_congr fun arg harg => h n hn arg ?_
  rw [hsite] at harg
  exact List.mem_eraseDups.mp harg

/-! ### Registering a level -/

/-- The registration does not end the plan as a dead end. -/
def Allows (planner : Planner) (r : Registration) : Prop :=
  (r.isDeadEnd && planner.options.failOnDeadEnd) = false

theorem addAll_of_foldlM_settleAt {results : List (Except Refusal Registration)}
    (hends : List.Forall₂ (fun id result => CanEnd (planner.registerAt session graph published id)
      (result.mapError .refusal)) level results)
    (h : (level.zip results).foldlM (planner.settleAt graph) plan = .ok plan') :
    ∃ added : List (Nat × Registration), added.map Prod.fst = level ∧
      (∀ e ∈ added, CanEnd (planner.registerAt session graph published e.1) (.ok e.2) ∧
        planner.Allows e.2) ∧ plan' = plan.addAll added := by
  induction hends generalizing plan with
  | nil => exact ⟨[], rfl, nofun, (Except.ok.inj h).symm⟩
  | @cons id result level results hend _ ih =>
    rw [List.zip_cons_cons, List.foldlM_cons] at h
    obtain ⟨next, hnext, h⟩ := bind_eq_ok_iff.mp h
    obtain ⟨r, rfl, hallowed, rfl⟩ := Plan.settle_eq_ok_iff.mp hnext
    obtain ⟨added, rfl, hadded, rfl⟩ := ih h
    exact ⟨(id, r) :: added, rfl, List.forall_mem_cons.mpr ⟨⟨hend, hallowed⟩, hadded⟩, rfl⟩

/-- **What ends a plan at a node**: its registration fails, or it is a dead end and none is allowed. -/
def FailsAt (planner : Planner) (session : Session m) (graph : Graph) (published : Published) (id : Nat)
    (e : Failure Refusal) : Prop :=
  CanEnd (planner.registerAt session graph published id) (.error e) ∨
    ∃ r, CanEnd (planner.registerAt session graph published id) (.ok r) ∧
      (r.isDeadEnd && planner.options.failOnDeadEnd) = true ∧
        e = .refusal (.misconfigured (label graph id) (.allRejected r.rejected.length))

theorem failsAt_of_settleAt {result : Except Refusal Registration} {e : Failure Refusal}
    (hend : CanEnd (planner.registerAt session graph published id) (result.mapError .refusal))
    (h : planner.settleAt graph plan (id, result) = .error e) :
    planner.FailsAt session graph published id e := by
  cases result with
  | error refusal =>
    cases h
    exact .inl hend
  | ok r =>
    obtain ⟨hdead, rfl⟩ := Plan.settle_ok_error h
    exact .inr ⟨r, hend, hdead, rfl⟩

theorem exists_failsAt_of_foldlM_settleAt {results : List (Except Refusal Registration)}
    {e : Failure Refusal}
    (hends : List.Forall₂ (fun id result => CanEnd (planner.registerAt session graph published id)
      (result.mapError .refusal)) level results)
    (h : (level.zip results).foldlM (planner.settleAt graph) plan = .error e) :
    ∃ id ∈ level, planner.FailsAt session graph published id e := by
  induction hends generalizing plan with
  | nil => exact nomatch h
  | @cons id result level results hend _ ih =>
    rw [List.zip_cons_cons, List.foldlM_cons] at h
    cases hnext : planner.settleAt graph plan (id, result) with
    | error e' =>
      rw [hnext] at h
      cases h
      exact ⟨id, by simp, failsAt_of_settleAt hend hnext⟩
    | ok next =>
      rw [hnext] at h
      obtain ⟨id', hid', hfail⟩ := ih h
      exact ⟨id', List.mem_cons_of_mem id hid', hfail⟩

theorem forall₂_of_attempts [LawfulMonad m] {results : List (Except Refusal Registration)}
    (h : CanEnd (level.mapM fun id => attempt (planner.registerAt session graph published id))
      (.ok results)) :
    List.Forall₂ (fun id result => CanEnd (planner.registerAt session graph published id)
      (result.mapError .refusal)) level results := by
  refine h.mapM_ok.imp fun id result hend => ?_
  rcases hend.of_attempt with ⟨f, hfault, -⟩ | ⟨r, hr, hend⟩
  · exact nomatch hfault
  · cases hr
    exact hend

/-- **A level that is planned** adds its nodes, each registered against what was there before. -/
theorem planLevel_ok [LawfulMonad m]
    (h : CanEnd (planner.planLevel session graph plan level) (.ok plan')) :
    ∃ added : List (Nat × Registration), added.map Prod.fst = level ∧
      (∀ e ∈ added, CanEnd (planner.registerAt session graph plan.published e.1) (.ok e.2) ∧
        planner.Allows e.2) ∧ plan' = plan.addAll added := by
  obtain ⟨results, hresults, h⟩ := h.bind_ok
  exact addAll_of_foldlM_settleAt (forall₂_of_attempts hresults) h.of_raise

theorem planLevel_error [LawfulMonad m] {e : Failure Refusal}
    (h : CanEnd (planner.planLevel session graph plan level) (.error e)) :
    ∃ id ∈ level, planner.FailsAt session graph plan.published id e := by
  rcases h.bind_error with h | ⟨results, hresults, h⟩
  · obtain ⟨id, hid, hend⟩ := h.mapM_error
    rcases hend.of_attempt with ⟨f, hfault, hend'⟩ | ⟨r, hr, -⟩
    · cases hfault
      exact ⟨id, hid, .inl hend'⟩
    · exact nomatch hr
  · exact exists_failsAt_of_foldlM_settleAt (forall₂_of_attempts hresults) h.of_raise

/-! ### Consistent plans -/

/-- **A consistent plan** of the nodes `done`, whose arguments are among them. Every node has published
what its registration against the whole plan gives. -/
structure Consistent (planner : Planner) (session : Session m) (graph : Graph) (done : List Nat)
    (plan : Plan) : Prop where
  registered : ∀ id ∈ done, ∃ r,
    CanEnd (planner.registerAt session graph plan.published id) (.ok r) ∧
      plan.published.get? id = some r.candidates
  unregistered : ∀ id ∉ done, plan.published.get? id = none
  args_mem : ∀ id ∈ done, ∀ n, graph.node? id = some n → ∀ arg ∈ n.args, arg ∈ done

variable {done : List Nat}

theorem consistent_nil : planner.Consistent session graph [] {} :=
  ⟨nofun, fun _ _ => rfl, nofun⟩

theorem Consistent.mem_of_get? (hplan : planner.Consistent session graph done plan)
    {candidates : Candidates} (hget : plan.published.get? id = some candidates) : id ∈ done := by
  by_contra hid
  exact nomatch hget.symm.trans (hplan.unregistered id hid)

theorem Consistent.contains (hplan : planner.Consistent session graph done plan) (hid : id ∈ done) :
    plan.published.contains id = true := by
  obtain ⟨r, -, hget⟩ := hplan.registered id hid
  rw [SortedMap.contains, hget]
  rfl

theorem Consistent.exists_node (hplan : planner.Consistent session graph done plan) (hid : id ∈ done) :
    ∃ n, graph.node? id = some n := by
  obtain ⟨r, hr, -⟩ := hplan.registered id hid
  obtain ⟨n, -, hn, -⟩ := registerAt_ok hr
  exact ⟨n, hn⟩

/-- **A level keeps a plan consistent** if its nodes are new and their arguments are not. -/
theorem Consistent.planLevel [LawfulMonad m] (hplan : planner.Consistent session graph done plan)
    (hnodup : level.Nodup) (hnew : ∀ id ∈ level, id ∉ done)
    (hargs : ∀ id ∈ level, ∀ n, graph.node? id = some n → ∀ arg ∈ n.args, arg ∈ done)
    (h : CanEnd (planner.planLevel session graph plan level) (.ok plan')) :
    planner.Consistent session graph (done ++ level) plan' := by
  obtain ⟨added, rfl, hadded, rfl⟩ := planLevel_ok h
  have hdone : ∀ id ∈ done, id ∉ added.map Prod.fst := fun id hid hmem => hnew id hmem hid
  -- what the arguments of a node have published is not changed by the level
  have hsame : ∀ id ∈ done ++ added.map Prod.fst,
      planner.registerAt session graph (plan.addAll added).published id =
        planner.registerAt session graph plan.published id := by
    intro id hid
    refine registerAt_congr fun n hn arg harg => Plan.get?_addAll_of_not_mem (hdone arg ?_)
    rcases List.mem_append.mp hid with hid | hid
    · exact hplan.args_mem id hid n hn arg harg
    · exact hargs id hid n hn arg harg
  refine ⟨fun id hid => ?_, fun id hid => ?_, fun id hid n hn arg harg => ?_⟩
  · rw [hsame id hid]
    rcases List.mem_append.mp hid with hid | hid
    · rw [Plan.get?_addAll_of_not_mem (hdone id hid)]
      exact hplan.registered id hid
    · obtain ⟨e, he, rfl⟩ := List.mem_map.mp hid
      exact ⟨e.2, (hadded e he).1, Plan.get?_addAll_of_mem hnodup he⟩
  · rw [List.mem_append, not_or] at hid
    rw [Plan.get?_addAll_of_not_mem hid.2]
    exact hplan.unregistered id hid.1
  · rcases List.mem_append.mp hid with hid | hid
    · exact List.mem_append_left _ (hplan.args_mem id hid n hn arg harg)
    · exact List.mem_append_left _ (hargs id hid n hn arg harg)

/-! ### Runs over layers -/

theorem Consistent.layer [LawfulMonad m] {layers past rest : List (List Nat)}
    (hlayers : graph.IsLayering layers) (hsplit : layers = past ++ level :: rest)
    (hplan : planner.Consistent session graph past.flatten plan)
    (h : CanEnd (planner.planLevel session graph plan level) (.ok plan')) :
    planner.Consistent session graph (past ++ [level]).flatten plan' := by
  obtain ⟨hnodup, hnew⟩ := hlayers.nodup_layer hsplit
  rw [List.flatten_append, List.flatten_singleton]
  exact hplan.planLevel hnodup hnew (fun id hid n hn => hlayers.args_mem hsplit hid hn) h

theorem consistent_of_past [LawfulMonad m] {past rest : List (List Nat)}
    (hlayers : graph.IsLayering (past ++ rest))
    (h : CanEnd (past.foldlM (planner.planLevel session graph) {}) (.ok plan)) :
    planner.Consistent session graph past.flatten plan := by
  refine h.foldlM_ok (fun past plan => planner.Consistent session graph past.flatten plan)
    consistent_nil fun {done level others _ _} hsplit hplan hstep => ?_
  have hlayer : past ++ rest = done ++ level :: (others ++ rest) := by rw [hsplit]; simp
  exact hplan.layer hlayers hlayer hstep

/-- **A run over layers** of the graph ends with a consistent plan of all nodes. -/
theorem consistent_of_run [LawfulMonad m] {layers : List (List Nat)} (hlayers : graph.IsLayering layers)
    (h : CanEnd (layers.foldlM (planner.planLevel session graph) {}) (.ok plan)) :
    planner.Consistent session graph layers.flatten plan := by
  have hwhole : graph.IsLayering (layers ++ []) := by rwa [List.append_nil]
  exact consistent_of_past hwhole h

/-- **A run over layers fails** at a node whose arguments have been planned. -/
theorem exists_failsAt_of_run [LawfulMonad m] {layers : List (List Nat)}
    (hlayers : graph.IsLayering layers) {e : Failure Refusal}
    (h : CanEnd (layers.foldlM (planner.planLevel session graph) {}) (.error e)) :
    ∃ done plan id, planner.Consistent session graph done plan ∧ id < graph.size ∧
      (∀ n, graph.node? id = some n → ∀ arg ∈ n.args, arg ∈ done) ∧
        planner.FailsAt session graph plan.published id e := by
  obtain ⟨past, level, rest, plan, hsplit, hplan, hstep⟩ := h.foldlM_error
    (fun past plan => planner.Consistent session graph past.flatten plan) consistent_nil
    fun hsplit hplan hstep => hplan.layer hlayers hsplit hstep
  obtain ⟨id, hid, hfail⟩ := planLevel_error hstep
  refine ⟨past.flatten, plan, id, hplan, ?_, fun n hn => hlayers.args_mem hsplit hid hn, hfail⟩
  rw [← hlayers.mem_flatten_iff, hsplit]
  exact List.mem_flatten.mpr ⟨level, by simp, hid⟩

end Running

end Planner

end ShardPlan
