import ShardPlan.Proofs.Planning.Alignment
import ShardPlan.Proofs.Planning.Computes
import ShardPlan.Proofs.Planning.Success
import ShardPlan.Proofs.Planning.Unpriced

/-! # Returned values

An output returns its arguments. Its handler keeps them under names with their numbers, which sort `input_10`
before `input_2`, and reads them back by number. So its one candidate is about the arguments in order, and every
device holds all of them in full (`Handler.output_candidates_iff`). An argument that is returned several times is
an operand as many times (`Site.argumentsFrom_returned`), and each of them adds a transition to the cost of coming
from a strategy of the argument. With an oracle that serves these transitions the candidate is always committed
(`register_replicated`, `Handler.output_returns_in_order`). -/

namespace ShardPlan

/-! ### The candidate -/

theorem Operand.localBytes_replicated_hasValue_iff {o : Operand} {t : TensorType} {mesh : Mesh}
    (ht : o.tensor = some t) : HasValue (o.localBytes .replicated mesh) ↔ HasValue t.byteSize := by
  have hreplicated : Layout.replicated.Within 0 mesh := .replicated
  rw [localBytes, ht]
  constructor
  · rintro ⟨held, h⟩
    obtain ⟨bytes, hbytes, -⟩ := bind_eq_ok_iff.mp h
    exact ⟨bytes, hbytes⟩
  · rintro ⟨bytes, hbytes⟩
    exact ⟨_, hreplicated.localBytes_eq_ok hbytes⟩

theorem Boundary.layouts_of_outputStrategy {mesh : Mesh} {inputs : List Operand} {s : Strategy}
    (h : outputStrategy mesh inputs = .ok s) : s.layouts = inputs.map fun o => (o, .replicated) := by
  obtain ⟨bytes, -, h⟩ := bind_eq_ok_iff.mp h
  cases h
  rfl

section Output

variable {site : Site} {handler : Handler} {inputs : List Operand} (h : Handler.output site = .ok handler)
  (hinputs : List.Forall₂ site.Feeds site.node.args inputs)
include h hinputs

theorem Handler.output_candidates_iff {strategies : List Strategy} :
    handler.candidates = .ok strategies ↔
      ∃ s, Boundary.outputStrategy site.mesh inputs = .ok s ∧ strategies = [s] := by
  have hgen := output_generators h hinputs
  cases h
  rw [candidates_of_generator hgen fun _ => rfl]
  exact bind_pure_eq_ok_iff

theorem Handler.output_candidates_hasValue_iff : HasValue handler.candidates ↔
    ∀ id ∈ site.node.args, ∀ arg t, site.graph.node? id = some arg → arg.tensor = some t →
      HasValue t.byteSize := by
  have hgenerate : HasValue handler.candidates ↔
      HasValue (Boundary.outputGenerator site.mesh inputs).generate :=
    exists_congr fun strategies => (output_candidates_iff h hinputs).trans bind_pure_eq_ok_iff.symm
  rw [hgenerate, Boundary.outputGenerator_hasValue_iff]
  constructor
  · intro hbytes id hid arg t harg ht
    obtain ⟨o, ho, arg', harg', -, rfl⟩ := (mem_of_forall₂ hinputs).2 id hid
    cases harg.symm.trans harg'
    exact (Operand.localBytes_replicated_hasValue_iff ht).mp (hbytes _ ho)
  · intro hsizes o ho
    obtain ⟨id, hid, arg, harg, htyped, rfl⟩ := (mem_of_forall₂ hinputs).1 o ho
    obtain ⟨t, ht⟩ := Option.isSome_iff_exists.mp htyped
    exact (Operand.localBytes_replicated_hasValue_iff ht).mpr (hsizes id hid arg t harg ht)

end Output

/-! ### Operands from one argument -/

namespace Site

variable {site : Site} {id : Nat} {o : Operand}

theorem Feeds.filter_isArgumentFrom (ho : site.Feeds id o) {args : List Nat} {inputs : List Operand}
    (hinputs : List.Forall₂ site.Feeds args inputs) :
    inputs.filter (·.isArgumentFrom id) = List.replicate (args.count id) o := by
  induction hinputs with
  | nil => rfl
  | @cons id' o' args inputs ho' _ ih =>
    by_cases hid : id' = id
    · subst hid
      rw [List.filter_cons, if_pos (ho'.isArgumentFrom_iff.mpr rfl), ih, List.count_cons_self,
        List.replicate_succ, ho'.unique ho]
    · have hother : ¬ o'.isArgumentFrom id = true := fun hfrom => hid (ho'.isArgumentFrom_iff.mp hfrom).symm
      rw [List.filter_cons, if_neg hother, ih, List.count_cons_of_ne hid]

/-- **An argument that is returned several times** is an operand as many times. -/
theorem argumentsFrom_returned {inputs : List Operand}
    (hinputs : List.Forall₂ site.Feeds site.node.args inputs) {s : Strategy}
    (hs : s.layouts = inputs.map fun o => (o, .replicated)) (ho : site.Feeds id o) :
    s.argumentsFrom id = List.replicate (site.node.args.count id) (o, .replicated) := by
  have hreplicate : List.replicate (site.node.args.count id) (o, Layout.replicated) =
      (inputs.filter (·.isArgumentFrom id)).map fun o => (o, .replicated) := by
    rw [ho.filter_isArgumentFrom hinputs, List.map_replicate]
  rw [Strategy.argumentsFrom, hs, List.filter_map, hreplicate]
  rfl

end Site

section Running

variable {m : Type → Type} [Monad m] [MonadExceptOf (Failure Refusal) m] [Runs m]
  {session : Session m} {site : Site} {published : Published}

/-! ### What it costs to return -/

/-- **An oracle serves a transition** if it always answers, with a cost that can be used. -/
def Oracle.Serves (oracle : Oracle m) (t : TensorType) (source target : Layout) : Prop :=
  ∀ o, CanEnd (oracle t source target) o → ∃ tr, o = .ok tr ∧ tr.cost.isUsable = true

theorem Oracle.Serves.not_addTransition_error {t : TensorType} {source target : Layout}
    (h : Oracle.Serves session.ask t source target) {cost : StepCost} {e : Failure Refusal} :
    ¬ CanEnd (addTransition session site source cost (t, target)) (.error e) := by
  intro hend
  rcases hend.bind_error with hask | ⟨tr, htr, hend⟩
  · obtain ⟨_, heq, -⟩ := h _ hask
    exact nomatch heq
  · obtain ⟨tr', heq, husable⟩ := h _ htr
    cases heq
    rw [if_pos husable] at hend
    exact Runs.not_canEnd_pure_error hend

/-- **The cost of returning a tensor** as often as `times` from where the strategy `c` has left it: as many answers
of the oracle, each usable, added up from zero. -/
def Strategy.CostsToReturn (oracle : Oracle m) (t : TensorType) (times : Nat) (c : Strategy)
    (cost : StepCost) : Prop :=
  ∃ result, ∃ transitions : List Transition, c.result? = some result ∧ transitions.length = times ∧
    (∀ tr ∈ transitions, CanEnd (oracle t result.2 .replicated) (.ok tr) ∧ tr.cost.isUsable = true) ∧
      cost = StepCost.sum (transitions.map Transition.cost)

theorem Strategy.ComesUsably.costsToReturn {s c : Strategy} {id times : Nat} {cost : StepCost}
    (h : s.ComesUsably session id c cost) {o : Operand} {t : TensorType} (ht : o.tensor = some t)
    (hargs : s.argumentsFrom id = List.replicate times (o, .replicated)) :
    c.CostsToReturn session.ask t times cost := by
  obtain ⟨result, transitions, hresult, htransitions, husable, hcost⟩ := h
  rw [hargs] at htransitions
  refine ⟨result, transitions, hresult, ?_, fun tr htr => ⟨?_, husable tr htr⟩, hcost⟩
  · rw [← htransitions.length_eq, List.length_replicate]
  · obtain ⟨e, he, t', ht', hanswer⟩ := (mem_of_forall₂ htransitions).1 tr htr
    obtain rfl := List.eq_of_mem_replicate he
    cases ht.symm.trans ht'
    exact hanswer

/-- **Every argument can be returned**: it has published strategies with results, and the oracle serves the
transition from each result to the whole tensor. -/
def Site.CanReturn (site : Site) (oracle : Oracle m) (published : Published) : Prop :=
  ∀ id ∈ site.node.args, ∃ producers, published.get? id = some producers ∧
    ∀ c ∈ producers.strategies, ∃ result, c.result? = some result ∧
      ∀ arg t, site.graph.node? id = some arg → arg.tensor = some t → oracle.Serves t result.2 .replicated

theorem Site.CanReturn.contains {oracle : Oracle m} (h : site.CanReturn oracle published) {id : Nat}
    (hid : id ∈ site.node.args) : published.contains id = true := by
  obtain ⟨producers, hproducers, -⟩ := h id hid
  exact Option.isSome_of_eq_some hproducers

/-! ### Registering an output -/

section Output

variable [LawfulMonad m] {s : Strategy} {inputs : List Operand} {id : Nat}
  (hinputs : List.Forall₂ site.Feeds site.node.args inputs)
  (hs : s.layouts = inputs.map fun o => (o, .replicated))
include hinputs hs

theorem Site.CanReturn.not_reshardingCosts_error (h : site.CanReturn session.ask published)
    (hid : id ∈ site.node.args) {e : Failure Refusal} :
    ¬ CanEnd (reshardingCosts session site published s id) (.error e) := by
  intro hend
  obtain ⟨producers, hproducers, hserved⟩ := h id hid
  obtain ⟨o, -, arg, harg, htyped, rfl⟩ := (mem_of_forall₂ hinputs).2 id hid
  have hfrom := Site.argumentsFrom_returned hinputs hs ⟨arg, harg, htyped, rfl⟩
  have hresults : ∀ c ∈ producers.strategies, c.result?.isSome = true := fun c hc => by
    obtain ⟨result, hresult, -⟩ := hserved c hc
    exact Option.isSome_of_eq_some hresult
  have hne : s.argumentsFrom id ≠ [] := by
    rw [hfrom, Ne, List.replicate_eq_nil_iff, List.count_eq_zero]
    exact fun hnot => hnot hid
  have hall : ∀ x ∈ s.argumentsFrom id, x = (.ofArgument arg, .replicated) := fun x hx =>
    List.eq_of_mem_replicate (hfrom ▸ hx)
  obtain ⟨c, hc, result, hresult, x, hx, t, cost, ht, hend⟩ :=
    reshardingCosts_error harg hproducers hresults hne (fun x hx => hall x hx ▸ htyped) hend
  obtain ⟨result', hresult', hserves⟩ := hserved c hc
  cases hresult.symm.trans hresult'
  cases hall x hx
  exact (hserves arg t harg ht).not_addTransition_error hend

theorem costsToReturn_of_reshardingCosts {costs : List StepCost}
    (hend : CanEnd (reshardingCosts session site published s id) (.ok costs)) {arg : Node} {t : TensorType}
    (harg : site.graph.node? id = some arg) (ht : arg.tensor = some t) :
    ∃ producers, published.get? id = some producers ∧
      List.Forall₂ (Strategy.CostsToReturn session.ask t (site.node.args.count id)) producers.strategies costs := by
  obtain ⟨-, producers, hproducers, hall⟩ := reshardingCosts_usable hend
  have hfeeds : site.Feeds id (.ofArgument arg) := ⟨arg, harg, by rw [ht]; rfl, rfl⟩
  have hfrom := Site.argumentsFrom_returned hinputs hs hfeeds
  exact ⟨producers, hproducers, hall.imp fun c cost hcomes => hcomes.costsToReturn ht hfrom⟩

end Output

/-- **A single candidate that splits nothing** is committed, unless it cannot be priced. -/
theorem register_replicated [LawfulMonad m] {handler : Handler} {s : Strategy} (hsession : session.CanTell)
    (hcomputes : handler.Computes site.mesh) (hcandidates : handler.candidates = .ok [s])
    (hs : s.IsReplicated) (hpublished : ∀ id ∈ site.node.args, published.contains id = true)
    (hpriced : ∀ id ∈ site.node.args, ∀ e,
      ¬ CanEnd (reshardingCosts session site published s id) (.error e))
    {o : Planned Registration} (h : CanEnd (register session site published handler true) o) :
    ∃ priced, o = .ok ⟨⟨site.node.id, [priced]⟩, []⟩ ∧ CanEnd (reshard session site published s) (.ok priced) := by
  have hfit : site.misfit? s = .ok none := Site.misfit?_of_isReplicated hs
  have hcheck : site.checkPredecessors published site.node.predecessors = .ok () :=
    checkPredecessors_eq_ok fun id hid => hpublished id (List.mem_eraseDups.mp hid)
  cases o with
  | error e =>
    rcases register_error h with ⟨-, herror⟩ | hfails | ⟨event, htells, hnote⟩ |
      ⟨-, strategies, s', hcandidates', hs', -, hend⟩
    · exact nomatch hcheck.symm.trans herror
    · exact absurd hfails (hcomputes.not_fails e)
    · exact absurd hnote (hsession (htells.text_hasValue hcomputes.isCountable))
    · cases hcandidates.symm.trans hcandidates'
      rw [List.mem_singleton.mp hs'] at hend
      obtain ⟨id, hid, hend⟩ := reshard_error hend
      exact absurd hend (hpriced id (List.mem_eraseDups.mp hid) e)
  | ok r =>
    obtain ⟨hnode, strategies, hcandidates', hjudged⟩ := register_ok h
    cases hcandidates.symm.trans hcandidates'
    obtain ⟨⟨node, committed⟩, rejected⟩ := r
    cases hnode
    cases hjudged with
    | commit _ hend hrest =>
      cases hrest
      exact ⟨_, rfl, hend⟩
    | reject hmisfit _ => exact nomatch hfit.symm.trans hmisfit

end Running

/-- **What a graph returns is kept in order.** If the arguments of an output are tensors, its handler has a candidate
exactly if their sizes can be counted. It is the only one, and is about the arguments one by one, in order and as
often as they are returned, each held in full by every device. Where they can be returned, the candidate is
committed. It then has costs for exactly the different arguments, and those of an argument are one for each
strategy that it has published, with as many transitions as it is returned. -/
theorem Handler.output_returns_in_order (site : Site)
    (hargs : ∀ id ∈ site.node.args, site.graph.HasTensor id) :
    ∃ handler, Handler.output site = .ok handler ∧
      (HasValue handler.candidates ↔ ∀ id ∈ site.node.args, ∀ arg t,
        site.graph.node? id = some arg → arg.tensor = some t → HasValue t.byteSize) ∧
      ∀ strategies, handler.candidates = .ok strategies → ∃ s, strategies = [s] ∧
        List.Forall₂ (fun id e => ∃ arg, site.graph.node? id = some arg ∧
          e = (Operand.ofArgument arg, Layout.replicated)) site.node.args s.layouts ∧
        ∀ logged (oracle : Oracle Live) published, site.CanReturn oracle published → ∀ diary, ∃ priced,
          ((register (.live logged oracle) site published handler true).run.run diary).1 =
            .ok ⟨⟨site.node.id, [priced]⟩, []⟩ ∧
          priced = { s with resharding := priced.resharding } ∧
          (∀ id, id ∈ priced.resharding.keys ↔ id ∈ site.node.args) ∧
          ∀ id ∈ site.node.args, ∀ arg t, site.graph.node? id = some arg → arg.tensor = some t →
            ∃ producers costs, published.get? id = some producers ∧ priced.resharding.get? id = some costs ∧
              List.Forall₂ (Strategy.CostsToReturn oracle t (site.node.args.count id)) producers.strategies
                costs := by
  obtain ⟨inputs, hinputs⟩ := Site.exists_feeds_iff.mpr hargs
  obtain ⟨handler, hhandler⟩ : ∃ handler, Handler.output site = .ok handler := ⟨_, rfl⟩
  refine ⟨handler, hhandler, output_candidates_hasValue_iff hhandler hinputs, fun strategies hcandidates => ?_⟩
  obtain ⟨s, hs, rfl⟩ := (output_candidates_iff hhandler hinputs).mp hcandidates
  have hlayouts := Boundary.layouts_of_outputStrategy hs
  refine ⟨s, rfl, ?_, fun logged oracle published hreturn diary => ?_⟩
  · rw [hlayouts, List.forall₂_map_right_iff]
    exact hinputs.imp fun id o ⟨arg, harg, _, ho⟩ => ⟨arg, harg, by rw [ho]⟩
  have hcomputes : handler.Computes site.mesh :=
    output_computes hhandler hinputs ⟨[s], bind_pure_eq_ok_iff.mpr ⟨s, hs, rfl⟩⟩
  have hask := Session.ask_live logged oracle
  rw [← hask] at hreturn
  obtain ⟨o, diary', hrun⟩ : ∃ o diary',
      (register (.live logged oracle) site published handler true).run.run diary = (o, diary') := ⟨_, _, rfl⟩
  obtain ⟨priced, rfl, hpriced⟩ := register_replicated (Session.live_canTell logged oracle) hcomputes hcandidates
    (Boundary.of_outputStrategy hs).2 (fun id hid => hreturn.contains hid)
    (fun id hid e => hreturn.not_reshardingCosts_error hinputs hlayouts hid) ⟨diary, diary', hrun⟩
  obtain ⟨hsame, hcosts, -⟩ := reshard_ok hpriced
  refine ⟨priced, by rw [hrun], hsame, fun id => ?_, fun id hid arg t harg ht => ?_⟩
  · rw [keys_of_reshard hpriced (Boundary.resharding_of_outputStrategy hs), Node.predecessors, List.mem_eraseDups]
  · obtain ⟨costs, hcosts, hget⟩ := hcosts id (List.mem_eraseDups.mpr hid)
    obtain ⟨producers, hproducers, hall⟩ := costsToReturn_of_reshardingCosts hinputs hlayouts hcosts harg ht
    rw [hask] at hall
    exact ⟨producers, costs, hproducers, hget, hall⟩

/-- Two inputs, and an output that returns eleven values, of which the first and the last are the second input. -/
def Graph.returning : Graph where
  nodes := [⟨0, "x", .input, [], [2], some ⟨[8, 4], .f32⟩⟩,
    ⟨1, "y", .input, [], [2], some ⟨[4], .f32⟩⟩,
    ⟨2, "output", .output, [1, 0, 0, 0, 0, 0, 0, 0, 0, 0, 1], [], none⟩]
  owner := none
  map_id_nodes := rfl
  args_lt := by decide

/-- The output of that graph, on four devices. -/
def Site.returning : Site :=
  ⟨.returning, ⟨2, "output", .output, [1, 0, 0, 0, 0, 0, 0, 0, 0, 0, 1], [], none⟩, .square⟩

/-- The strategies of its inputs: two of the first and one of the second. -/
def Published.ofReturning : Published :=
  let x : Operand := ⟨"x", .result, some ⟨[8, 4], .f32⟩, some 0⟩
  let y : Operand := ⟨"y", .result, some ⟨[4], .f32⟩, some 1⟩
  .ofList [(0, ⟨0, [{ name := "R", layouts := [(x, .replicated)] },
    { name := "S0", layouts := [(x, .ofPairs [(0, [0])])] }]⟩),
    (1, ⟨1, [{ name := "R", layouts := [(y, .replicated)] }]⟩)]

theorem Oracle.constant_serves {cost : StepCost} (h : cost.isUsable = true) (t : TensorType)
    (source target : Layout) : Oracle.Serves (m := Live) (.constant cost) t source target :=
  fun _ hend => ⟨_, Runs.eq_of_pure hend, h⟩

/-- Eleven values are returned in order, and the input that is returned nine times costs nine transitions. -/
theorem Handler.output_returns_in_order_of_returning :
    (∀ id ∈ Site.returning.node.args, Site.returning.graph.HasTensor id) ∧
      Site.returning.CanReturn (m := Live) (.constant (.ofPasses 1.0 2.0)) .ofReturning ∧
      ∃ handler s priced, Handler.output .returning = .ok handler ∧ handler.candidates = .ok [s] ∧
        List.Forall₂ (fun id e => ∃ arg, Graph.returning.node? id = some arg ∧
          e = (Operand.ofArgument arg, Layout.replicated)) [1, 0, 0, 0, 0, 0, 0, 0, 0, 0, 1] s.layouts ∧
        ((register (.live true (.constant (.ofPasses 1.0 2.0))) .returning .ofReturning handler true).run.run {}).1 =
          .ok ⟨⟨2, [priced]⟩, []⟩ ∧
        (∀ id, id ∈ priced.resharding.keys ↔ id ∈ Site.returning.node.args) ∧
        ∃ producers costs, Published.ofReturning.get? 0 = some producers ∧ priced.resharding.get? 0 = some costs ∧
          List.Forall₂ (Strategy.CostsToReturn (m := Live) (.constant (.ofPasses 1.0 2.0)) ⟨[8, 4], .f32⟩ 9)
            producers.strategies costs := by
  have hargs : ∀ id ∈ Site.returning.node.args, id = 0 ∨ id = 1 := by decide
  have htensors : ∀ id ∈ Site.returning.node.args, Site.returning.graph.HasTensor id := fun id hid => by
    rcases hargs id hid with rfl | rfl
    · exact ⟨_, rfl, rfl⟩
    · exact ⟨_, rfl, rfl⟩
  have husable : (StepCost.ofPasses 1.0 2.0 : StepCost).isUsable = true := by decide +kernel
  have hreturn : Site.returning.CanReturn (m := Live) (.constant (.ofPasses 1.0 2.0)) .ofReturning := by
    intro id hid
    rcases hargs id hid with rfl | rfl
    · refine ⟨_, rfl, List.forall_mem_cons.mpr ⟨?_, List.forall_mem_singleton.mpr ?_⟩⟩
      · exact ⟨_, rfl, fun _ t _ _ => Oracle.constant_serves husable t _ _⟩
      · exact ⟨_, rfl, fun _ t _ _ => Oracle.constant_serves husable t _ _⟩
    · refine ⟨_, rfl, List.forall_mem_singleton.mpr ?_⟩
      exact ⟨_, rfl, fun _ t _ _ => Oracle.constant_serves husable t _ _⟩
  obtain ⟨handler, hhandler, hvalue, hcandidates⟩ := Handler.output_returns_in_order .returning htensors
  obtain ⟨strategies, hstrategies⟩ : HasValue handler.candidates := hvalue.mpr fun id hid arg t harg ht => by
    rcases hargs id hid with rfl | rfl
    · cases harg
      cases ht
      exact ⟨_, rfl⟩
    · cases harg
      cases ht
      exact ⟨_, rfl⟩
  obtain ⟨s, rfl, hlayouts, hregister⟩ := hcandidates strategies hstrategies
  obtain ⟨priced, hend, -, hkeys, hcosts⟩ := hregister true _ _ hreturn {}
  exact ⟨htensors, hreturn, handler, s, priced, hhandler, hstrategies, hlayouts, hend, hkeys,
    hcosts 0 (by decide) _ _ rfl rfl⟩

end ShardPlan
