import ShardPlan.Proofs.Planning.Deterministic
import ShardPlan.Proofs.Planning.Order
import ShardPlan.Proofs.Planning.Records

/-! # Planning without prices

Prices are written down and never read: what is generated, left out and committed does not depend on them. So
a run without prices tracks the run with prices (`Tracks`): it ends, from every state, with what the other one
ends with, less the prices. This holds of judging the candidates of a node, and from there of registrations,
levels and whole plans (`Planner.pricing_only_annotates`). -/

namespace ShardPlan

/-! ### Strategies without prices -/

theorem Strategy.unpriced_eq {s : Strategy} (h : s.resharding = .empty) : s.unpriced = s := by
  rw [unpriced, ← h]

/-- **A generator of unpriced strategies.** -/
def Generator.IsUnpriced (g : Generator) : Prop :=
  ∀ strategies, g.generate = .ok strategies → ∀ s ∈ strategies, s.resharding = .empty

theorem Generator.IsUnpriced.of_single {g : Generator} {x : Checked Strategy}
    (hg : g.generate = x >>= fun s => pure [s]) (hx : ∀ {s}, x = .ok s → s.resharding = .empty) :
    g.IsUnpriced := by
  intro strategies h s hs
  obtain ⟨s', hs', rfl⟩ := Generator.eq_singleton_of_generate hg h
  rw [List.mem_singleton.mp hs]
  exact hx hs'

theorem Generator.IsUnpriced.of_mapM {g : Generator} {α : Type} {f : α → Checked Strategy}
    {choices : List α} (hg : g.generate = choices.mapM f)
    (hf : ∀ {c s}, f c = .ok s → s.resharding = .empty) : g.IsUnpriced := by
  intro strategies h s hs
  obtain ⟨c, -, hc⟩ := (mem_of_forall₂ (mapM_eq_ok_iff.mp (hg.symm.trans h))).1 s hs
  exact hf hc

namespace Boundary

variable {mesh : Mesh} {output : Operand} {inputs : List Operand} {s : Strategy}

theorem resharding_of_inputStrategy (h : inputStrategy mesh output = .ok s) : s.resharding = .empty := by
  obtain ⟨bytes, -, h⟩ := bind_eq_ok_iff.mp h
  cases h
  rfl

theorem resharding_of_outputStrategy (h : outputStrategy mesh inputs = .ok s) :
    s.resharding = .empty := by
  obtain ⟨bytes, -, h⟩ := bind_eq_ok_iff.mp h
  cases h
  rfl

end Boundary

namespace Handler

variable {site : Site} {handler : Handler}

theorem resharding_of_storeWeight {m : ModuleTree} {s s' : Strategy} {list : List Strategy}
    (h : storeWeight site m s = .ok list) (hs' : s' ∈ list) : s'.resharding = s.resharding := by
  obtain ⟨logical, -, h⟩ := bind_eq_ok_iff.mp h
  obtain ⟨stored, -, h⟩ := bind_eq_ok_iff.mp h
  split at h
  · exact nomatch h
  · cases h
    rw [List.mem_singleton.mp hs', Strategy.replace?]
    cases Strategy.replaceFirst? _ _ _ _ with
    | none => rfl
    | some layouts => rfl

theorem unpriced_of_generator {g : Generator} (hgen : handler.generators = .ok [g]) (hg : g.IsUnpriced)
    (hrefine : ∀ {s list}, handler.refine s = .ok list → ∀ s' ∈ list, s'.resharding = s.resharding)
    {strategies : List Strategy} (h : handler.candidates = .ok strategies) :
    ∀ s ∈ strategies, s.resharding = .empty := by
  obtain ⟨generated, refined, hgenerated, hrefined, rfl⟩ := (candidates_eq_ok_iff hgen).mp h
  intro s hs
  obtain ⟨list, hlist, hs⟩ := List.mem_flatten.mp hs
  obtain ⟨s₀, hs₀, hlist⟩ := (mem_of_forall₂ (mapM_eq_ok_iff.mp hrefined)).1 list hlist
  rw [hrefine hlist s hs]
  exact hg generated hgenerated s₀ hs₀

theorem unpriced_of_candidates {factory : Factory} (hfactory : factory ∈ builtIn)
    (h : factory site = .ok handler) {strategies : List Strategy}
    (hcandidates : handler.candidates = .ok strategies) : ∀ s ∈ strategies, s.resharding = .empty := by
  have hsame : ∀ {s : Strategy} {list}, (Except.ok [s] : Planned _) = .ok list →
      ∀ s' ∈ list, s'.resharding = s.resharding := by
    rintro s _ ⟨⟩ s' hs'
    rw [List.mem_singleton.mp hs']
  obtain ⟨generators, hgen⟩ := exists_generators hcandidates
  simp only [builtIn, List.mem_cons, List.not_mem_nil, or_false] at hfactory
  rcases hfactory with rfl | rfl | rfl | rfl
  · obtain ⟨o, -, rfl⟩ := (input_generators_iff h).mp hgen
    cases h
    exact unpriced_of_generator hgen (.of_single rfl Boundary.resharding_of_inputStrategy) hsame
      hcandidates
  · obtain ⟨inputs, -, rfl⟩ := (output_generators_iff h).mp hgen
    cases h
    exact unpriced_of_generator hgen (.of_single rfl Boundary.resharding_of_outputStrategy) hsame
      hcandidates
  · obtain ⟨-, inputs, o, -, -, rfl⟩ := (elementwise_generators_iff h).mp hgen
    cases h
    exact unpriced_of_generator hgen (.of_mapM rfl fun hl => (Elementwise.of_strategy hl).2.1) hsame
      hcandidates
  · obtain ⟨m, -, rfl⟩ := linear_eq_ok_iff.mp h
    obtain ⟨i, weight, o, -, -, -, rfl⟩ := layer_generators_iff.mp hgen
    exact unpriced_of_generator hgen (.of_mapM rfl fun hc => (Linear.of_strategy hc).2.1)
      (fun hlist s' hs' => resharding_of_storeWeight hlist hs') hcandidates

end Handler

/-! ### Plans without prices -/

namespace Plan

/-- The plan without the costs of coming to strategies. -/
def unpriced (plan : Plan) : Plan :=
  { plan with published := plan.published.mapValues Candidates.unpriced }

theorem unpriced_add (plan : Plan) (id : Nat) (r : Registration) :
    (plan.add id r).unpriced = plan.unpriced.add id r.unpriced := by
  rw [unpriced, add, add, SortedMap.mapValues_insert, Registration.isDeadEnd_unpriced]
  rfl

theorem unpriced_addAll : ∀ {added : List (Nat × Registration)} {plan : Plan},
    (plan.addAll added).unpriced = plan.unpriced.addAll (added.map fun e => (e.1, e.2.unpriced))
  | [], _ => rfl
  | e :: added, plan => by
    have hrest : ((plan.add e.1 e.2).addAll added).unpriced =
        (plan.add e.1 e.2).unpriced.addAll (added.map fun e => (e.1, e.2.unpriced)) := unpriced_addAll
    rw [unpriced_add] at hrest
    exact hrest

theorem summary_unpriced (plan : Plan) : plan.unpriced.summary = plan.summary := by
  have hvalues : plan.unpriced.published.values =
      plan.published.values.map Candidates.unpriced := by
    simp only [unpriced, SortedMap.values, SortedMap.mapValues, List.map_map]
    rfl
  have hcount : plan.unpriced.strategyCount = plan.strategyCount := by
    rw [strategyCount, hvalues, List.foldl_map]
    simp only [Candidates.unpriced, List.length_map]
    rfl
  have hsize : plan.unpriced.published.size = plan.published.size := List.length_map _
  rw [summary, hcount, hsize]
  rfl

end Plan

/-! ### Runs that track others -/

section Running

variable {m : Type → Type} [Monad m] [MonadExceptOf (Failure Refusal) m] [Runs m] [Deterministic m]
  {α β γ δ : Type}

/-- **A run tracks another one**: whatever value the other one can end with, this run always ends with its
image. -/
def Tracks (f : α → β) (x : m α) (y : m β) : Prop := ∀ a, CanEnd x (.ok a) → Always y (f a)

namespace Tracks

theorem pure {f : α → β} (a : α) : Tracks f (Pure.pure a : m α) (Pure.pure (f a)) := by
  intro a' h
  rw [h.eq_of_pure_ok]
  exact .pure (f a)

theorem raise (x : Planned α) : Tracks id (ShardPlan.raise x : m α) (ShardPlan.raise x) :=
  fun _ h => .raise h.of_raise

theorem bind {f : α → β} {g : γ → δ} {x : m α} {y : m β} {k : α → m γ} {k' : β → m δ}
    (h : Tracks f x y) (hk : ∀ a, CanEnd x (.ok a) → Tracks g (k a) (k' (f a))) :
    Tracks g (x >>= k) (y >>= k') := by
  intro c hc
  obtain ⟨a, ha, hc⟩ := hc.bind_ok
  exact (h a ha).bind (hk a ha c hc)

theorem foldlM {f : β → γ} {step : β → α → m β} {step' : γ → α → m γ}
    (h : ∀ b a, Tracks f (step b a) (step' (f b) a)) : ∀ (list : List α) (b : β),
    Tracks f (list.foldlM step b) (list.foldlM step' (f b))
  | [], b => .pure b
  | a :: list, b => by
    rw [List.foldlM_cons, List.foldlM_cons]
    exact (h b a).bind fun b' _ => foldlM h list b'

end Tracks

/-- **A session that is steady**: whether it can tell an event does not depend on its state. -/
def Session.IsSteady (session : Session m) : Prop :=
  ∀ event, Tracks id (session.note event) (session.note event)

theorem Session.silent_isSteady (oracle : Oracle m) : (Session.silent oracle).IsSteady :=
  fun _ => .pure ()

/-! ### Registrations without prices -/

variable {session : Session m} {site : Site} {published published' : Published} {handler : Handler}

theorem generateAll_tracks [LawfulMonad m] (hsession : session.IsSteady) :
    ∀ generators : List Generator, Tracks id (generateAll session site handler generators)
      (generateAll session site handler generators)
  | [] => .pure []
  | g :: generators => by
    refine (Tracks.raise _).bind fun generated _ => (hsession _).bind fun _ _ => ?_
    have hrefined : Tracks id (generated.mapM fun s => raise (handler.refine s) : m _)
        (generated.mapM fun s => raise (handler.refine s)) :=
      fun _ h => .mapM (h.mapM_ok.imp fun _ _ hs => .raise hs.of_raise)
    exact hrefined.bind fun refined _ =>
      (generateAll_tracks hsession generators).bind fun others _ => .pure _

/-- **A strategy that is priced** is the strategy that is not, with prices. -/
theorem reshard_tracks {s : Strategy} (hs : s.resharding = .empty) :
    Tracks Strategy.unpriced (reshard session site published s) (pure s) := by
  intro priced h
  have hpriced : PricedAs session site published true s priced := h
  rw [hpriced.unpriced_eq, Strategy.unpriced_eq hs]
  exact .pure s

/-- The committed strategies without prices, and the refusals. -/
def unpricedVerdict (verdict : List Strategy × List Refusal) : List Strategy × List Refusal :=
  (verdict.1.map Strategy.unpriced, verdict.2)

theorem judge_tracks [LawfulMonad m] (hsession : session.IsSteady) : ∀ {strategies : List Strategy},
    (∀ s ∈ strategies, s.resharding = .empty) →
      Tracks unpricedVerdict (judge session site published true strategies)
        (judge session site published' false strategies)
  | [], _ => .pure ([], [])
  | s :: rest, hfresh => by
    obtain ⟨hs, hrest⟩ := List.forall_mem_cons.mp hfresh
    refine (Tracks.raise _).bind fun misfit _ => ?_
    cases misfit with
    | some refusal =>
      exact (hsession _).bind fun _ _ => (judge_tracks hsession hrest).bind fun verdict _ =>
        .pure (verdict.1, refusal :: verdict.2)
    | none =>
      exact (reshard_tracks hs).bind fun priced _ => (judge_tracks hsession hrest).bind
        fun verdict _ => .pure (priced :: verdict.1, verdict.2)

theorem register_tracks [LawfulMonad m] (hsession : session.IsSteady)
    (hfresh : ∀ {strategies}, handler.candidates = .ok strategies →
      ∀ s ∈ strategies, s.resharding = .empty) :
    Tracks Registration.unpriced (register session site published handler true)
      (register session site published' handler false) := by
  have hchecked : Tracks Registration.unpriced (registerChecked session site published handler true)
      (registerChecked session site published' handler false) := by
    refine (Tracks.raise _).bind fun generators hgenerators => ?_
    refine (generateAll_tracks hsession generators).bind fun strategies hstrategies => ?_
    have hcandidates := candidates_of_generateAll hgenerators.of_raise hstrategies
    refine (judge_tracks hsession (hfresh hcandidates)).bind fun verdict _ => ?_
    obtain ⟨committed, rejected⟩ := verdict
    -- the event that is told counts the strategies
    have hevent : (if (Registration.mk ⟨site.node.id, committed.map Strategy.unpriced⟩ rejected).isDeadEnd
          then Event.deadEnd site.node.label rejected.length
          else .committed (committed.map Strategy.unpriced).length site.node.label) =
        if (Registration.mk ⟨site.node.id, committed⟩ rejected).isDeadEnd
          then .deadEnd site.node.label rejected.length
          else .committed committed.length site.node.label := by
      rw [Registration.isDeadEnd, Registration.isDeadEnd, List.isEmpty_map, List.length_map]
    dsimp only [unpricedVerdict]
    rw [hevent]
    exact (hsession _).bind fun _ _ => .pure _
  rw [register_true]
  intro r h
  obtain ⟨-, -, h⟩ := h.bind_ok
  exact hchecked r h

namespace Planner

/-- The planner that prices strategies, or does not. -/
def pricing (planner : Planner) (priced : Bool) : Planner :=
  { planner with options := { planner.options with priceResharding := priced } }

variable {planner : Planner} {graph : Graph} {plan : Plan}

theorem registerAt_tracks [LawfulMonad m] (hregistry : planner.registry.IsBuiltIn)
    (hsession : session.IsSteady) {id : Nat} :
    Tracks Registration.unpriced ((planner.pricing true).registerAt session graph published id)
      ((planner.pricing false).registerAt session graph published' id) := by
  refine (Tracks.raise _).bind fun e he => ?_
  obtain ⟨site, handler⟩ := e
  obtain ⟨n, -, -, hhandler⟩ := handlerAt_ok he.of_raise
  obtain ⟨factory, hfactory, hhandler⟩ := hregistry.exists_factory hhandler
  exact register_tracks hsession (Handler.unpriced_of_candidates hfactory hhandler)

theorem allows_unpriced {r : Registration} (h : (planner.pricing true).Allows r) :
    (planner.pricing false).Allows r.unpriced := by
  rw [Allows, Registration.isDeadEnd_unpriced]
  exact h

/-- Registrations that are allowed are all added. -/
theorem foldlM_settleAt : ∀ {added : List (Nat × Registration)} {plan : Plan},
    (∀ e ∈ added, planner.Allows e.2) →
      (added.map fun e => (e.1, Except.ok e.2)).foldlM (planner.settleAt graph) plan =
        .ok (plan.addAll added)
  | [], _, _ => rfl
  | e :: added, plan, h => by
    obtain ⟨he, hadded⟩ := List.forall_mem_cons.mp h
    have hfirst : planner.settleAt graph plan (e.1, .ok e.2) = .ok (plan.add e.1 e.2) :=
      Plan.settle_eq_ok_iff.mpr ⟨e.2, rfl, he, rfl⟩
    rw [List.map_cons, List.foldlM_cons, hfirst]
    exact foldlM_settleAt hadded

theorem planLevel_tracks [LawfulMonad m] (hregistry : planner.registry.IsBuiltIn)
    (hsession : session.IsSteady) (plan : Plan) (level : List Nat) :
    Tracks Plan.unpriced ((planner.pricing true).planLevel session graph plan level)
      ((planner.pricing false).planLevel session graph plan.unpriced level) := by
  intro plan' h
  obtain ⟨added, rfl, hadded, rfl⟩ := planLevel_ok h
  have hattempts : Always ((added.map Prod.fst).mapM fun id =>
      attempt ((planner.pricing false).registerAt session graph plan.unpriced.published id))
      (added.map fun e => .ok e.2.unpriced) := by
    refine .mapM (List.forall₂_map_left_iff.mpr (List.forall₂_map_right_iff.mpr ?_))
    exact List.forall₂_same.mpr fun e he =>
      (registerAt_tracks hregistry hsession e.2 (hadded e he).1).attempt
  refine hattempts.bind (.raise ?_)
  have hzip : (added.map Prod.fst).zip
        (added.map fun e => (Except.ok e.2.unpriced : Except Refusal Registration)) =
      (added.map fun e => (e.1, e.2.unpriced)).map fun e => (e.1, .ok e.2) := by
    rw [List.zip_map', List.map_map]
    rfl
  rw [Plan.unpriced_addAll, hzip]
  refine foldlM_settleAt fun e' he' => ?_
  obtain ⟨e, he, rfl⟩ := List.mem_map.mp he'
  exact allows_unpriced (hadded e he).2

/-- **A graph is planned** alike without prices. -/
theorem plan_tracks [LawfulMonad m] (hregistry : planner.registry.IsBuiltIn)
    (hsession : session.IsSteady) : Tracks Plan.unpriced ((planner.pricing true).plan session graph)
      ((planner.pricing false).plan session graph) := by
  have hlevels : Tracks Plan.unpriced
      (graph.levels.foldlM ((planner.pricing true).planLevel session graph) {})
      (graph.levels.foldlM ((planner.pricing false).planLevel session graph) {}) :=
    .foldlM (planLevel_tracks hregistry hsession) graph.levels {}
  refine hlevels.bind fun plan _ => ?_
  rw [Plan.summary_unpriced]
  exact (hsession _).bind fun _ _ => .pure plan

/-- **Prices only annotate a plan.** If a graph has a plan with prices, it has one without prices from every state:
with the same diagnostics and dead ends, and with the strategies of the other plan, all costs of coming to
them left out. -/
theorem pricing_only_annotates [LawfulMonad m] (planner : Planner)
    (hregistry : planner.registry.IsBuiltIn) (session : Session m) (hsession : session.IsSteady)
    (graph : Graph) {plan : Plan} (h : CanEnd ((planner.pricing true).plan session graph) (.ok plan))
    (s : State m) :
    ∃ plan' s', finish ((planner.pricing false).plan session graph) s = (.ok plan', s') ∧
      plan'.diagnostics = plan.diagnostics ∧ plan'.deadEnds = plan.deadEnds ∧
      plan'.published = plan.published.mapValues Candidates.unpriced := by
  obtain ⟨s', hs'⟩ := plan_tracks hregistry hsession plan h s
  exact ⟨plan.unpriced, s', hs', rfl, rfl, rfl⟩

end Planner

end Running

theorem Session.logging_isSteady (oracle : Oracle Live) : (Session.logging oracle).IsSteady := by
  intro event
  refine (Tracks.raise _).bind fun text _ => ?_
  exact fun _ _ diary => ⟨_, rfl⟩

/-- A graph that has a plan with prices, and the same plan without them. -/
theorem pricing_only_annotates_of_joining :
    Planner.square.registry.IsBuiltIn ∧ Session.free.IsSteady ∧
      ∃ plan plan', (Planner.square.pricing true).plan .free .joining = .ok plan ∧
        (Planner.square.pricing false).plan .free .joining = .ok plan' ∧
          plan'.published = plan.published.mapValues Candidates.unpriced := by
  have hregistry : Planner.square.registry.IsBuiltIn := Registry.standard_isBuiltIn
  have hsession : Session.free.IsSteady := Session.silent_isSteady _
  obtain ⟨plan, hplan⟩ := joining_planned
  obtain ⟨plan', s', hplan', -, -, hpublished⟩ :=
    Planner.pricing_only_annotates .square hregistry .free hsession .joining hplan ()
  exact ⟨hregistry, hsession, plan, plan', hplan, congrArg Prod.fst hplan', hpublished⟩

end ShardPlan
