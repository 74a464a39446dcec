import ShardPlan.Proofs.Planning.Committed

/-! # What the oracle is asked

A planner with the handlers of this library asks its oracle only about two layouts that fit one tensor. The
answers to all other questions do not matter: whoever answers these alone in the same way leads the planner
to the same plan (`Planner.plan_congr`). At every question the supplied layout is one that the predecessor
has committed and the demanded one has passed the filter, and both are about the tensor of the predecessor
(`reshardingCosts_congr`). -/

namespace ShardPlan

section Running

variable {m : Type → Type} [Monad m] [MonadExceptOf (Failure Refusal) m]

/-- **Sessions that agree on valid questions**, those about two layouts that fit the tensor on the mesh. -/
structure Session.AgreesWith (session session' : Session m) (mesh : Mesh) : Prop where
  note_eq : session'.note = session.note
  ask_eq : ∀ {t source target}, source.violation? t mesh = .ok none →
    target.violation? t mesh = .ok none → session'.ask t source target = session.ask t source target

/-- What is published can be used by the nodes that have published it. -/
def Site.AdmitsAll (site : Site) (published : Published) : Prop :=
  ∀ {id candidates}, published.get? id = some candidates → ∃ n, site.graph.node? id = some n ∧
    ∀ s ∈ candidates.strategies, (Site.mk site.graph n site.mesh).Admits s

variable [Runs m] {session session' : Session m} {site : Site} {published : Published}

/-- **A question is about two layouts that fit one tensor**, the one that the predecessor holds. -/
theorem Site.Admits.question {s candidate : Strategy} (hs : site.Admits s) {id : Nat}
    {n previous : Node} (hn : site.graph.node? id = some n)
    (hcandidate : (Site.mk site.graph n site.mesh).Admits candidate) {source : Layout}
    (hsource : site.supply previous candidate = .ok source) {demands : List (TensorType × Layout)}
    (hdemands : site.demands previous id s = .ok demands) {d : TensorType × Layout} (hd : d ∈ demands) :
    n.tensor = some d.1 ∧ source.violation? d.1 site.mesh = .ok none ∧
      d.2.violation? d.1 site.mesh = .ok none := by
  obtain ⟨result, hresult, rfl⟩ := result?_of_supply hsource
  obtain ⟨held, hheld, -, hsupplied⟩ := hcandidate.result hresult
  have htyped := typedOperands_eq_ok_iff.mp (typedOperands_of_demands hdemands).2
  obtain ⟨e, he, t, ht, rfl⟩ := (mem_of_forall₂ htyped).1 d hd
  obtain ⟨arg, fed, harg, hfed, htaken, hdemanded⟩ := hs.argument he
  cases harg.symm.trans hn
  cases hheld.symm.trans hfed
  cases ht.symm.trans htaken
  exact ⟨hheld, hsupplied, hdemanded⟩

section Site

variable (hsession : session.AgreesWith session' site.mesh) (hpublished : site.AdmitsAll published)
include hsession hpublished

/-! ### Pricing -/

theorem reshardingCosts_congr [LawfulMonad m] {s : Strategy} (hs : site.Admits s) {id : Nat} :
    reshardingCosts session' site published s id = reshardingCosts session site published s id := by
  refine Runs.bind_congr fun previous _ => Runs.bind_congr fun candidates hcandidates =>
    Runs.bind_congr fun demands hdemands => Runs.mapM_congr fun candidate hcandidate =>
    Runs.bind_congr fun source hsource => ?_
  obtain ⟨n, hn, hadmits⟩ := hpublished (get?_of_candidatesOf hcandidates.of_raise)
  refine Runs.foldlM_congr (fun _ _ => True) [] trivial fun {past d rest cost} hsplit _ => ?_
  have hd : d ∈ demands := List.mem_iff_append.mpr ⟨past, rest, hsplit⟩
  obtain ⟨-, hsupplied, hdemanded⟩ :=
    hs.question hn (hadmits candidate hcandidate) hsource.of_raise hdemands.of_raise hd
  unfold addTransition
  rw [hsession.ask_eq hsupplied hdemanded]
  exact ⟨rfl, fun _ => trivial⟩

theorem reshard_congr_session [LawfulMonad m] {s : Strategy} (hs : site.Admits s) :
    reshard session' site published s = reshard session site published s := by
  refine Runs.foldlM_congr (fun _ current => site.Admits current) [] hs
    fun {past id rest current} _ hcurrent => ?_
  rw [reshardingCosts_congr hsession hpublished hcurrent]
  refine ⟨rfl, fun {next} hnext => ?_⟩
  obtain ⟨costs, -, hnext⟩ := hnext.bind_ok
  cases hnext.eq_of_pure_ok
  exact ⟨hcurrent.allFit, hcurrent.provides⟩

/-! ### Registrations -/

theorem judge_congr_session [LawfulMonad m] {pricing : Bool} : ∀ {strategies : List Strategy},
    (∀ s ∈ strategies, ∀ e ∈ s.layouts, site.Provides e.1) →
      judge session' site published pricing strategies = judge session site published pricing strategies
  | [], _ => rfl
  | s :: rest, hprovides => by
    obtain ⟨hs, hrest⟩ := List.forall_mem_cons.mp hprovides
    refine Runs.bind_congr fun misfit hmisfit => ?_
    cases misfit with
    | some refusal =>
      dsimp only
      rw [hsession.note_eq, judge_congr_session hrest]
    | none =>
      have hadmits : site.Admits s := ⟨Site.misfit?_eq_none_iff.mp hmisfit.of_raiseChecked, hs⟩
      dsimp only
      rw [reshard_congr_session hsession hpublished hadmits, judge_congr_session hrest]

omit [Runs m] hpublished in
theorem generateAll_congr_session {handler : Handler} : ∀ {generators : List Generator},
    generateAll session' site handler generators = generateAll session site handler generators
  | [] => rfl
  | g :: generators => by
    rw [generateAll, generateAll, hsession.note_eq, generateAll_congr_session]

theorem register_congr_session [LawfulMonad m] {factory : Factory}
    (hfactory : factory ∈ Handler.builtIn) {handler : Handler} (hhandler : factory site = .ok handler)
    {pricing : Bool} : register session' site published handler pricing =
      register session site published handler pricing := by
  have hchecked : registerChecked session' site published handler pricing =
      registerChecked session site published handler pricing := by
    unfold registerChecked
    rw [hsession.note_eq]
    refine Runs.bind_congr fun generators hgenerators => ?_
    rw [generateAll_congr_session hsession]
    refine Runs.bind_congr fun strategies hstrategies => ?_
    have hcandidates := candidates_of_generateAll hgenerators.of_raise hstrategies
    rw [judge_congr_session hsession hpublished
      (Handler.provides_of_candidates hfactory hhandler hcandidates)]
  cases pricing with
  | false => exact hchecked
  | true => rw [register_true, register_true, hchecked]

end Site

/-! ### Plans -/

namespace Planner

variable {planner : Planner} {graph : Graph}

theorem planLevel_congr_session [LawfulMonad m] (hregistry : planner.registry.IsBuiltIn)
    (hsession : session.AgreesWith session' planner.mesh) {done : List Nat} {plan : Plan}
    (hplan : planner.Consistent session graph done plan) {level : List Nat} :
    planner.planLevel session' graph plan level = planner.planLevel session graph plan level := by
  have hregister : ∀ id, planner.registerAt session' graph plan.published id =
      planner.registerAt session graph plan.published id := fun id => by
    refine Runs.bind_congr fun e hat => ?_
    obtain ⟨n, -, hsite, hhandler⟩ := handlerAt_ok hat.of_raise
    obtain ⟨factory, hfactory, hhandler⟩ := hregistry.exists_factory hhandler
    obtain ⟨site, handler⟩ := e
    cases hsite
    exact register_congr_session hsession (hplan.admits hregistry) hfactory hhandler
  unfold planLevel
  simp only [hregister]

/-- **The oracle is only asked about two layouts that fit one tensor**: another one that answers these
questions alike leads to the same plan. -/
theorem plan_congr [LawfulMonad m] (hregistry : planner.registry.IsBuiltIn)
    (hsession : session.AgreesWith session' planner.mesh) :
    planner.plan session' graph = planner.plan session graph := by
  have hlevels : graph.levels.foldlM (planner.planLevel session graph) {} =
      graph.levels.foldlM (planner.planLevel session' graph) {} :=
    Runs.foldlM_congr (fun past plan => planner.Consistent session graph past.flatten plan) []
      consistent_nil fun hsplit hplan => ⟨(planLevel_congr_session hregistry hsession hplan).symm,
        fun hstep => hplan.layer graph.levels_isLayering hsplit hstep⟩
  rw [plan, plan, hlevels, hsession.note_eq]

end Planner

end Running

end ShardPlan
