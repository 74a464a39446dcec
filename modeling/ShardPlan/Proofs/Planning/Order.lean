import ShardPlan.Proofs.Planning.Consistency
import ShardPlan.Proofs.Reshard.Validity

/-! # Planning one node after the other

The nodes of a level are registered against the levels before them, and yet a plan is what one gets by
registering its nodes one after the other, each against all that was published before it: no node of a
level reads what another one of the level publishes (`planLevel_eq_foldlM`). The order then only matters
for the diagnostics and, if dead ends are errors, for which of them is reported. Every order in which
arguments come first publishes the same strategies, since two consistent plans agree wherever both have
planned (`Consistent.get?_eq`). -/

namespace ShardPlan

namespace Graph

theorem IsLayering.arg_not_mem {g : Graph} {layers : List (List Nat)} (h : g.IsLayering layers)
    {layer : List Nat} (hlayer : layer ∈ layers) {id : Nat} (hid : id ∈ layer) {n : Node}
    (hn : g.node? id = some n) {arg : Nat} (harg : arg ∈ n.args) : arg ∉ layer := by
  obtain ⟨past, rest, hsplit⟩ := List.mem_iff_append.mp hlayer
  intro hmem
  exact (h.nodup_layer hsplit).2 arg hmem (h.args_mem hsplit hid hn arg harg)

end Graph

namespace Planner

variable {planner : Planner} {session : Session Planned} {graph : Graph} {published : Published}
  {plan : Plan} {level : List Nat} {layers : List (List Nat)}

/-! ### A level as a sequence of nodes -/

theorem raise_eq {α : Type} (x : Planned α) : (raise x : Planned α) = x := by
  cases x with
  | ok a => rfl
  | error e => rfl

theorem planNode_eq {id : Nat} {result : Except Refusal Registration}
    (h : attempt (planner.registerAt session graph plan.published id) = .ok result) :
    planner.planNode session graph plan id = planner.settleAt graph plan (id, result) := by
  rw [planNode, h]
  exact raise_eq _

/-- Settling the nodes of a level in turn is planning them in turn, as long as the nodes that are left
read nothing that the level has published. -/
theorem foldlM_planNode {results : List (Except Refusal Registration)}
    (hresults : List.Forall₂ (fun id result =>
      attempt (planner.registerAt session graph published id) = .ok result) level results)
    (hargs : ∀ id ∈ level, ∀ n, graph.node? id = some n → ∀ arg ∈ n.args, arg ∉ level)
    (hsame : ∀ id ∈ level, planner.registerAt session graph plan.published id =
      planner.registerAt session graph published id) :
    level.foldlM (planner.planNode session graph) plan =
      (level.zip results).foldlM (planner.settleAt graph) plan := by
  induction hresults generalizing plan with
  | nil => rfl
  | @cons id result level results hresult _ ih =>
    rw [← hsame id List.mem_cons_self] at hresult
    rw [List.zip_cons_cons, List.foldlM_cons, List.foldlM_cons, planNode_eq hresult]
    refine Runs.bind_congr fun next hnext => ih (fun id' hid' n hn arg harg hmem => ?_)
      fun id' hid' => ?_
    · exact hargs id' (List.mem_cons_of_mem id hid') n hn arg harg (List.mem_cons_of_mem id hmem)
    · obtain ⟨r, -, -, rfl⟩ := Plan.settle_eq_ok_iff.mp hnext
      rw [← hsame id' (List.mem_cons_of_mem id hid')]
      refine registerAt_congr fun n hn arg harg => ?_
      have hne : id ≠ arg := fun heq =>
        hargs id' (List.mem_cons_of_mem id hid') n hn arg harg (heq ▸ List.mem_cons_self)
      rw [Plan.get?_add, if_neg hne]

/-- **A level is planned like its nodes in turn**, unless there is a fault. -/
theorem planLevel_eq_foldlM
    (hargs : ∀ id ∈ level, ∀ n, graph.node? id = some n → ∀ arg ∈ n.args, arg ∉ level) :
    (∃ f, planner.planLevel session graph plan level = .error (.fault f)) ∨
      planner.planLevel session graph plan level =
        level.foldlM (planner.planNode session graph) plan := by
  cases hresults : level.mapM fun id =>
      attempt (planner.registerAt session graph plan.published id) with
  | error e =>
    obtain ⟨id, -, hend⟩ := Runs.CanEnd.mapM_error (m := Planned) hresults
    rcases hend.of_attempt with ⟨f, hf, -⟩ | ⟨r, hr, -⟩
    · cases hf
      exact .inl ⟨f, by rw [planLevel, hresults]; rfl⟩
    · exact nomatch hr
  | ok results =>
    refine .inr ?_
    rw [foldlM_planNode (mapM_eq_ok_iff.mp hresults) hargs fun _ _ => rfl, planLevel, hresults]
    exact raise_eq _

theorem foldlM_planLevel : ∀ {layers : List (List Nat)} {plan : Plan},
    (∀ layer ∈ layers, ∀ id ∈ layer, ∀ n, graph.node? id = some n → ∀ arg ∈ n.args, arg ∉ layer) →
    (∃ f, layers.foldlM (planner.planLevel session graph) plan = .error (.fault f)) ∨
      layers.foldlM (planner.planLevel session graph) plan =
        layers.flatten.foldlM (planner.planNode session graph) plan
  | [], _, _ => .inr rfl
  | layer :: layers, plan, hargs => by
    obtain ⟨hlayer, hlayers⟩ := List.forall_mem_cons.mp hargs
    rw [List.foldlM_cons, List.flatten_cons, List.foldlM_append]
    obtain ⟨f, hf⟩ | hsame : (∃ f, planner.planLevel session graph plan layer = .error (.fault f)) ∨
        planner.planLevel session graph plan layer =
          layer.foldlM (planner.planNode session graph) plan := planLevel_eq_foldlM hlayer
    · exact .inl ⟨f, by rw [hf]; rfl⟩
    · rw [← hsame]
      cases planner.planLevel session graph plan layer with
      | error e => exact .inr rfl
      | ok next => exact foldlM_planLevel hlayers

theorem planLevel_singleton {id : Nat} :
    planner.planLevel session graph plan [id] = planner.planNode session graph plan id := by
  rw [planLevel, planNode, List.mapM_cons, List.mapM_nil, bind_assoc]
  refine bind_congr fun result => ?_
  rw [pure_bind, pure_bind, List.zip_cons_cons, List.zip_nil_right, List.foldlM_cons]
  simp only [List.foldlM_nil, bind_pure]

theorem foldlM_planNode_eq_layers {order : List Nat} :
    order.foldlM (planner.planNode session graph) plan =
      (order.map fun id => [id]).foldlM (planner.planLevel session graph) plan := by
  rw [List.foldlM_map]
  simp only [planLevel_singleton]

/-! ### Two plans of one graph -/

theorem Consistent.get?_eq {done done' : List Nat} {plan' : Plan}
    (h : planner.Consistent session graph done plan)
    (h' : planner.Consistent session graph done' plan') (hsub : done ⊆ done') :
    ∀ id ∈ done, plan.published.get? id = plan'.published.get? id := by
  intro id
  -- by induction on the number of the node, since those of its arguments are smaller
  induction id using Nat.strongRecOn with
  | ind id ih =>
    intro hid
    obtain ⟨r, hr, hget⟩ := h.registered id hid
    obtain ⟨r', hr', hget'⟩ := h'.registered id (hsub hid)
    have hsame : planner.registerAt session graph plan.published id =
        planner.registerAt session graph plan'.published id :=
      registerAt_congr fun n hn arg harg =>
        ih arg (graph.arg_lt_of_node? hn harg) (h.args_mem id hid n hn arg harg)
    have hrr : (Except.ok r : Planned Registration) = .ok r' := hr.symm.trans (hsame.trans hr')
    cases hrr
    rw [hget, hget']

/-- **Layers do not matter for what is published**, if dead ends are allowed: what is planned in some
layers is planned in all. -/
theorem exists_run_of_run {layers layers' : List (List Nat)} (hlayers : graph.IsLayering layers)
    (hlayers' : graph.IsLayering layers') (hallowed : planner.options.failOnDeadEnd = false)
    (h : layers.foldlM (planner.planLevel session graph) {} = .ok plan) :
    ∃ plan', layers'.foldlM (planner.planLevel session graph) {} = .ok plan' ∧
      plan'.published = plan.published := by
  have hplan : planner.Consistent session graph layers.flatten plan := consistent_of_run hlayers h
  have hall : ∀ {id}, id < graph.size → id ∈ layers.flatten := fun hid =>
    hlayers.perm.mem_iff.mpr (List.mem_range.mpr hid)
  cases hrun : layers'.foldlM (planner.planLevel session graph) {} with
  | ok plan' =>
    have hplan' : planner.Consistent session graph layers'.flatten plan' :=
      consistent_of_run hlayers' hrun
    have hperm := hlayers'.perm.trans hlayers.perm.symm
    refine ⟨plan', rfl, SortedMap.ext_get? fun id => ?_⟩
    by_cases hid : id ∈ layers'.flatten
    · exact hplan'.get?_eq hplan hperm.subset id hid
    · rw [hplan'.unregistered id hid, hplan.unregistered id (mt hperm.mem_iff.mpr hid)]
  | error e =>
    -- the node that fails reads what `plan` has published as well, with which it does not fail
    have hend : CanEnd (layers'.foldlM (planner.planLevel session graph) {}) (.error e) := hrun
    obtain ⟨done, plan', id, hplan', hid, hargs, hfail⟩ := exists_failsAt_of_run hlayers' hend
    have hsub : done ⊆ layers.flatten := fun id' hid' => by
      obtain ⟨n, hn⟩ := hplan'.exists_node hid'
      exact hall (Graph.lt_size_of_node? hn)
    obtain ⟨r, hr, -⟩ := hplan.registered id (hall hid)
    have hsame : planner.registerAt session graph plan'.published id =
        planner.registerAt session graph plan.published id :=
      registerAt_congr fun n hn arg harg => hplan'.get?_eq hplan hsub arg (hargs n hn arg harg)
    have hr : planner.registerAt session graph plan'.published id = .ok r := hsame.trans hr
    rcases hfail with hfail | ⟨r', -, hdead, -⟩
    · exact nomatch hr.symm.trans hfail
    · rw [hallowed, Bool.and_false] at hdead
      exact nomatch hdead

/-- **A plan made level by level** is the one made one node after the other in the order of the levels, each
node published at once: the same strategies, diagnostics and dead ends, or the same error, unless there is
a fault: a size that overflows, or what a handler or the oracle faults with. If dead ends are allowed, it
publishes the same strategies as a plan made in any other order in which arguments come first, and one is
made exactly if the other is. -/
theorem plan_eq_planInOrder (planner : Planner) (oracle : Oracle Planned) (graph : Graph) :
    ((∀ f, planner.plan (.silent oracle) graph ≠ .error (.fault f)) →
      planner.plan (.silent oracle) graph =
        planner.planInOrder (.silent oracle) graph graph.order) ∧
    (planner.options.failOnDeadEnd = false → ∀ order, graph.IsOrder order → ∀ published,
      (∃ plan, planner.plan (.silent oracle) graph = .ok plan ∧ plan.published = published) ↔
        ∃ plan, planner.planInOrder (.silent oracle) graph order = .ok plan ∧
          plan.published = published) := by
  refine ⟨fun hfault => ?_, fun hallowed order horder published => ?_⟩
  · obtain ⟨f, hf⟩ | hsame :
        (∃ f, graph.levels.foldlM (planner.planLevel (.silent oracle) graph) {} =
          .error (.fault f)) ∨
        graph.levels.foldlM (planner.planLevel (.silent oracle) graph) {} =
          graph.levels.flatten.foldlM (planner.planNode (.silent oracle) graph) {} :=
      foldlM_planLevel fun layer hlayer id hid n hn arg harg =>
        graph.levels_isLayering.arg_not_mem hlayer hid hn harg
    · refine absurd ?_ (hfault f)
      rw [plan, hf]
      rfl
    · rw [plan, planInOrder, hsame, Graph.order]
  · have hplan : planner.plan (.silent oracle) graph =
        graph.levels.foldlM (planner.planLevel (.silent oracle) graph) {} := by
      rw [plan]
      exact bind_pure _
    have horder' : planner.planInOrder (.silent oracle) graph order =
        (order.map fun id => [id]).foldlM (planner.planLevel (.silent oracle) graph) {} := by
      rw [planInOrder, ← foldlM_planNode_eq_layers]
      exact bind_pure _
    rw [hplan, horder']
    constructor
    · rintro ⟨plan, hrun, rfl⟩
      exact exists_run_of_run graph.levels_isLayering horder.isLayering hallowed hrun
    · rintro ⟨plan, hrun, rfl⟩
      exact exists_run_of_run horder.isLayering graph.levels_isLayering hallowed hrun

end Planner

/-- Two inputs of different sizes, a function of the first, and its sum with the second. -/
def Graph.joining : Graph where
  nodes := [⟨0, "x", .input, [], [2], some ⟨[8, 4], .f32⟩⟩,
    ⟨1, "y", .input, [], [3], some ⟨[4], .f32⟩⟩,
    ⟨2, "f", .function "relu", [0], [3], some ⟨[8, 4], .f32⟩⟩,
    ⟨3, "s", .function "add", [2, 1], [], some ⟨[8, 4], .f32⟩⟩]
  owner := none
  map_id_nodes := rfl
  args_lt := by decide

theorem joining_isOrder : Graph.joining.IsOrder [0, 2, 1, 3] := by
  refine ⟨by decide, fun {past id rest n} horder hn => ?_⟩
  rcases past with _ | ⟨a, _ | ⟨b, _ | ⟨c, _ | ⟨d, past⟩⟩⟩⟩
  · cases horder
    cases hn
    decide
  · cases horder
    cases hn
    decide
  · cases horder
    cases hn
    decide
  · cases horder
    cases hn
    decide
  · simp at horder

/-- The planner for four devices, with standard handlers. -/
def Planner.square : Planner where
  mesh := .square

/-- The session that is told that moving data costs nothing. -/
def Session.free : Session Planned := .silent (.constant .zero)

theorem joining_planned : ∃ plan, Planner.square.plan .free .joining = .ok plan := ⟨_, rfl⟩

/-- A graph whose levels are not the only order of its nodes. -/
theorem plan_eq_planInOrder_of_joining :
    (∀ f, Planner.square.plan .free .joining ≠ .error (.fault f)) ∧
      Planner.square.plan .free .joining =
        Planner.square.planInOrder .free .joining Graph.joining.order ∧
      Planner.square.options.failOnDeadEnd = false ∧ Graph.joining.IsOrder [0, 2, 1, 3] ∧
      ∃ plan plan', Planner.square.plan .free .joining = .ok plan ∧
        Planner.square.planInOrder .free .joining [0, 2, 1, 3] = .ok plan' ∧
          plan'.published = plan.published := by
  obtain ⟨plan, hplan⟩ := joining_planned
  have hfault : ∀ f, Planner.square.plan .free .joining ≠ .error (.fault f) :=
    fun f hf => nomatch hplan.symm.trans hf
  obtain ⟨hsame, horders⟩ := Planner.plan_eq_planInOrder .square (.constant .zero) .joining
  obtain ⟨plan', hplan', hpublished⟩ :=
    (horders rfl [0, 2, 1, 3] joining_isOrder plan.published).mp ⟨plan, hplan, rfl⟩
  exact ⟨hfault, hsame hfault, rfl, joining_isOrder, plan, plan', hplan, hplan', hpublished⟩

end ShardPlan
