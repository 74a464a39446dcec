import ShardPlan.Proofs.Planning.Memory
import ShardPlan.Proofs.Planning.Queries
import ShardPlan.Proofs.Planning.Refusing
import ShardPlan.Proofs.Reshard.Pricing

/-! # Planning never faults

Where the sizes of all tensors can be counted, a plan of a graph ends with a plan or with a refusal, with the
handlers of this library and a session that answers what it is asked (`Session.IsSafe`). Candidates are costed
before it is known whether they fit, so that this costing has a value is a fact about the handlers
(`Handler.refusal_of_fails`). Everything later is about layouts that fit: the oracle is asked about no
others, and the oracle of collectives answers such questions, whatever it remembers
(`Session.collective_isSafe`). -/

namespace ShardPlan

section Running

variable {m : Type → Type} [Monad m] [MonadExceptOf (Failure Refusal) m] [Runs m]
  {session : Session m} {site : Site} {published : Published}

/-- **A session that planning can rely on**: it answers about layouts that fit a tensor whose sizes can be
counted, or refuses, and tells every event that has a text. -/
structure Session.IsSafe (session : Session m) (mesh : Mesh) : Prop where
  ask : ∀ {t source target}, t.IsBounded → source.violation? t mesh = .ok none →
    target.violation? t mesh = .ok none → OnlyRefuses (session.ask t source target)
  canTell : session.CanTell

/-! ### Pricing -/

namespace Site

variable (site : Site)

theorem predecessor_onlyRefuses (id : Nat) : OnlyRefuses (site.predecessor id) := by
  unfold predecessor
  split
  · exact .refuse site _
  · exact .ok _

theorem checkPredecessors_onlyRefuses (published : Published) :
    ∀ ids : List Nat, OnlyRefuses (site.checkPredecessors published ids)
  | [] => .ok ()
  | id :: ids => by
    unfold checkPredecessors
    split
    · exact checkPredecessors_onlyRefuses published ids
    · exact (site.predecessor_onlyRefuses id).bind fun previous _ => .refusal _

theorem candidatesOf_onlyRefuses (published : Published) (previous : Node) (id : Nat) :
    OnlyRefuses (site.candidatesOf published previous id) := by
  unfold candidatesOf
  split
  · exact .refusal _
  · exact .ok _

theorem demands_onlyRefuses (previous : Node) (id : Nat) (s : Strategy) :
    OnlyRefuses (site.demands previous id s) :=
  fun f => demands_avoids (Failure.isForeign_fault f _) previous id s

theorem supply_onlyRefuses (previous : Node) (candidate : Strategy) :
    OnlyRefuses (site.supply previous candidate) :=
  fun f => supply_avoids (Failure.isForeign_fault f _) previous candidate

/-- A cost is refused by naming both layouts, which can be done if they fit. -/
theorem refuseCost_onlyRefuses {α : Type} (cost : StepCost) {t : TensorType} {source target : Layout}
    (ht : t.IsBounded) (hsource : source.violation? t site.mesh = .ok none)
    (htarget : target.violation? t site.mesh = .ok none) :
    OnlyRefuses (site.refuseCost cost t source target : Planned α) := by
  have hnamed : ∀ {l : Layout}, l.violation? t site.mesh = .ok none → HasValue (l.sequence t.rank) :=
    fun hl => (Layout.violation?_eq_none_iff.mp hl).within.sequence_hasValue ht.rank_lt t.rank
  exact (OnlyRefuses.ofChecked (hnamed hsource)).bind fun _ _ =>
    (OnlyRefuses.ofChecked (hnamed htarget)).bind fun _ _ => .refuse site _

end Site

variable (hsession : session.IsSafe site.mesh) (hgraph : site.graph.IsBounded)
  (hpublished : site.AdmitsAll published)
include hsession

theorem addTransition_onlyRefuses {source : Layout} {demand : TensorType × Layout}
    (ht : demand.1.IsBounded) (hsource : source.violation? demand.1 site.mesh = .ok none)
    (htarget : demand.2.violation? demand.1 site.mesh = .ok none) (cost : StepCost) :
    OnlyRefuses (addTransition session site source cost demand) := by
  refine (hsession.ask ht hsource htarget).bind fun transition _ => ?_
  split
  · exact .pure _
  · exact .raise (site.refuseCost_onlyRefuses transition.cost ht hsource htarget)

include hgraph hpublished

theorem reshardingCosts_onlyRefuses [LawfulMonad m] {s : Strategy} (hs : site.Admits s) (id : Nat) :
    OnlyRefuses (reshardingCosts session site published s id) := by
  refine .bind (.raise (site.predecessor_onlyRefuses id)) fun previous _ =>
    .bind (.raise (site.candidatesOf_onlyRefuses published previous id)) fun candidates hcandidates =>
    .bind (.raise (site.demands_onlyRefuses previous id s)) fun demands hdemands =>
    .mapM fun candidate hcandidate =>
    .bind (.raise (site.supply_onlyRefuses previous candidate)) fun source hsource =>
    .foldlM fun d hd cost => ?_
  obtain ⟨n, hn, hadmits⟩ := hpublished (get?_of_candidatesOf hcandidates.of_raise)
  obtain ⟨htensor, hsupplied, hdemanded⟩ :=
    hs.question hn (hadmits candidate hcandidate) hsource.of_raise hdemands.of_raise hd
  have ht : d.1.IsBounded := hgraph.nodes n (Graph.mem_nodes_of_node? hn) d.1 htensor
  exact addTransition_onlyRefuses hsession ht hsupplied hdemanded cost

theorem reshard_onlyRefuses [LawfulMonad m] {s : Strategy} (hs : site.Admits s) :
    OnlyRefuses (reshard session site published s) := by
  intro f h
  obtain ⟨id, -, h⟩ := reshard_error h
  exact reshardingCosts_onlyRefuses hsession hgraph hpublished hs id f h

/-! ### Registrations -/

theorem register_onlyRefuses [LawfulMonad m] (hnode : site.node ∈ site.graph.nodes) {factory : Factory}
    (hfactory : factory ∈ Handler.builtIn) {handler : Handler} (hhandler : factory site = .ok handler)
    (pricing : Bool) : OnlyRefuses (register session site published handler pricing) := by
  have hsite : site.IsBounded := ⟨hgraph, hnode⟩
  intro f h
  rcases register_error h with ⟨-, hcheck⟩ | hfails | ⟨event, htells, hnote⟩ |
    ⟨-, strategies, s, hcandidates, hs, hfit, hreshard⟩
  · exact site.checkPredecessors_onlyRefuses published _ f hcheck
  · obtain ⟨refusal, hrefusal⟩ := Handler.refusal_of_fails hfactory hhandler hsite hfails
    exact nomatch hrefusal
  · have hcountable : handler.IsCountable site.mesh :=
      Handler.isCountable_of_builtIn hfactory hhandler hsite
    exact hsession.canTell (htells.text_hasValue hcountable) hnote
  · have hadmits : site.Admits s := ⟨Site.misfit?_eq_none_iff.mp hfit,
      Handler.provides_of_candidates hfactory hhandler hcandidates s hs⟩
    exact reshard_onlyRefuses hsession hgraph hpublished hadmits f hreshard

end Running

/-! ### Plans -/

namespace Planner

section Running

variable {m : Type → Type} [Monad m] [MonadExceptOf (Failure Refusal) m] [Runs m] [LawfulMonad m]
  {planner : Planner} {session : Session m} {graph : Graph} {plan : Plan} {done : List Nat}

theorem Consistent.registerAt_onlyRefuses (hregistry : planner.registry.IsBuiltIn)
    (hsession : session.IsSafe planner.mesh) (hgraph : graph.IsBounded)
    (hplan : planner.Consistent session graph done plan) {id : Nat} (hid : id < graph.size) :
    OnlyRefuses (planner.registerAt session graph plan.published id) := by
  intro f h
  obtain ⟨n, hn⟩ := Graph.exists_node? hid
  rcases registerAt_error hn h with hrefused | ⟨handler, hhandler, h⟩
  · exact hregistry.handler_avoids _ (Failure.isForeign_fault f _) hrefused
  · obtain ⟨factory, hfactory, hhandler⟩ := hregistry.exists_factory hhandler
    exact register_onlyRefuses hsession hgraph (hplan.admits hregistry)
      (Graph.mem_nodes_of_node? hn) hfactory hhandler _ f h

/-- **Planning only refuses** where all sizes can be counted. -/
theorem plan_onlyRefuses (hregistry : planner.registry.IsBuiltIn)
    (hsession : session.IsSafe planner.mesh) (hgraph : graph.IsBounded) :
    OnlyRefuses (planner.plan session graph) := by
  refine .bind (fun f h => ?_) fun plan _ => .bind (fun f h => ?_) fun _ _ => .pure plan
  · obtain ⟨done, plan, id, hplan, hid, -, hfails⟩ := exists_failsAt_of_run graph.levels_isLayering h
    rcases hfails with h | ⟨r, -, -, hrefused⟩
    · exact hplan.registerAt_onlyRefuses hregistry hsession hgraph hid f h
    · exact nomatch hrefused
  · have htext : HasValue plan.summary.text := .ok _
    exact hsession.canTell htext h

end Running

end Planner

/-! ### The oracle of collectives -/

theorem Oracle.remembered_avoids {inner : Oracle Planned} {t : TensorType} {source target : Layout}
    {e : Failure Refusal} (h : Avoids e (inner t source target)) :
    Avoids e (remembered inner t source target) := by
  rintro ⟨diary, diary', hrun⟩
  have hanswer := run_remembered inner ⟨t, source, target⟩ diary
  rw [answer, answer, hrun] at hanswer
  split at hanswer
  · exact nomatch hanswer
  · split at hanswer
    · exact nomatch hanswer
    · rename_i e' he'
      cases hanswer
      exact h he'

/-- **The oracle of collectives, with a memory**, answers about all layouts that fit. -/
theorem Session.collective_isSafe (logged : Bool) (mesh : Mesh) :
    (Session.live logged (.remembered (.ofChecked (.collective mesh)))).IsSafe mesh := by
  refine ⟨fun {t source target} ht hsource htarget => ?_, live_canTell logged _⟩
  rw [ask_live]
  obtain ⟨bytes, hbytes⟩ := ht.byteSize
  obtain ⟨cost, hcost⟩ := Route.between_eq_ok ht.rank_lt hbytes
    (Layout.violation?_eq_none_iff.mp hsource) (Layout.violation?_eq_none_iff.mp htarget)
  exact fun f => Oracle.remembered_avoids (.ofChecked ⟨_, hcost⟩)

/-- **Planning never faults on sizes that fit.** With the handlers of this library and the oracle of
collectives, whatever that remembers, a graph whose sizes can be counted has a plan or is refused. -/
theorem Planner.plan_never_faults (planner : Planner) (hregistry : planner.registry.IsBuiltIn)
    (graph : Graph) (hgraph : graph.IsBounded) (logged : Bool) (diary : Diary) :
    let session := Session.live logged (.remembered (.ofChecked (.collective planner.mesh)))
    let outcome := ((planner.plan session graph).run.run diary).1
    (∃ plan, outcome = .ok plan) ∨ ∃ refusal, outcome = .error (.refusal refusal) := by
  intro session outcome
  have honly : OnlyRefuses (planner.plan session graph) :=
    plan_onlyRefuses hregistry (Session.collective_isSafe logged planner.mesh) hgraph
  exact honly.ends ⟨diary, _, rfl⟩

theorem ModuleTree.eq_of_descendant? {m m' : ModuleTree} (hchildren : m.children = []) {path : String}
    (h : m.descendant? path = some m') : m' = m := by
  unfold descendant? at h
  split at h
  · exact (Option.some.inj h).symm
  · cases hnames : pathNames path with
    | nil =>
      rw [hnames] at h
      exact (Option.some.inj h).symm
    | cons name names =>
      have hchild : m.child? name = none := by rw [child?, hchildren]; rfl
      rw [hnames, List.foldlM_cons, hchild] at h
      exact nomatch h

theorem Graph.layered_isBounded : Graph.layered.IsBounded := by
  constructor
  · intro n hn t ht
    have hshape : t = ⟨[8, 4], .f32⟩ := by
      simp only [Graph.layered, List.mem_cons, List.not_mem_nil, or_false] at hn
      rcases hn with rfl | rfl
      · exact (Option.some.inj ht).symm
      · exact (Option.some.inj ht).symm
    rw [hshape]
    exact ⟨by decide, by decide, _, rfl⟩
  · intro owner howner path m hm name t ht
    cases howner
    cases ModuleTree.eq_of_descendant? rfl hm
    have hshape : t = ⟨[4], .f32⟩ ∨ t = ⟨[4, 4], .f32⟩ := by
      rw [ModuleTree.squareLayer, ModuleTree.withParameter, ModuleTree.withParameter,
        SortedMap.get?_insert, SortedMap.get?_insert] at ht
      split at ht
      · exact .inl (Option.some.inj ht).symm
      · split at ht
        · exact .inr (Option.some.inj ht).symm
        · exact nomatch ht
    rcases hshape with rfl | rfl
    · exact ⟨by decide, by decide, _, rfl⟩
    · exact ⟨by decide, by decide, _, rfl⟩

theorem plan_never_faults_of_layered :
    Planner.square.registry.IsBuiltIn ∧ Graph.layered.IsBounded ∧
      ((∃ plan, ((Planner.square.plan (.live true (.remembered (.ofChecked (.collective .square))))
          .layered).run.run {}).1 = .ok plan) ∨
        ∃ refusal, ((Planner.square.plan (.live true (.remembered (.ofChecked (.collective .square))))
          .layered).run.run {}).1 = .error (.refusal refusal)) := by
  have hregistry : Planner.square.registry.IsBuiltIn := Registry.standard_isBuiltIn
  exact ⟨hregistry, Graph.layered_isBounded,
    Planner.plan_never_faults .square hregistry .layered Graph.layered_isBounded true {}⟩

end ShardPlan
