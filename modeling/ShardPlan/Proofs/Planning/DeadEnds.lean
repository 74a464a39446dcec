import ShardPlan.Proofs.Planning.Alignment
import ShardPlan.Proofs.Planning.Deterministic
import ShardPlan.Proofs.Planning.Order
import ShardPlan.Proofs.Planning.Records

/-! # Dead ends that are allowed or not

Two planners that differ in whether dead ends are allowed do the same, from the same state, up to the first
dead end: there one of them ends, and the other one goes on. `UpToDeadEnd` says this of how two runs end. It
holds of settling one node, and is kept by loops (`UpToDeadEnd.foldlM`), so it holds of settling a level, of
all levels and of whole plans (`Planner.upToDeadEnd_levels`). -/

namespace ShardPlan

namespace Planner

/-- The planner that refuses graphs with a dead end, or allows them. -/
def refusingDeadEnds (planner : Planner) (refusing : Bool) : Planner :=
  { planner with options := { planner.options with failOnDeadEnd := refusing } }

/-- The refusal of a graph for a node whose candidates are all left out. -/
def deadEndRefusal (planner : Planner) (graph : Graph) (id : Nat) : Refusal :=
  .misconfigured (label graph id) (.allRejected (planner.rejections graph id).length)

end Planner

/-! ### Ends of two runs -/

/-- **How a run that refuses dead ends follows one that allows them**: both end in the same way and meet no dead
end, or the first is refused for a dead end that the second lists next, if it ends with a plan. The dead ends
before are `past`. -/
inductive UpToDeadEnd {S : Type} (planner : Planner) (graph : Graph) (past : List Nat) :
    Planned Plan × S → Planned Plan × S → Prop
  | same {last : Planned Plan × S} (hpast : ∀ plan, last.1 = .ok plan → plan.deadEnds = past) :
      UpToDeadEnd planner graph past last last
  | stopped {last last' : Planned Plan × S} (id : Nat)
      (hstop : last.1 = .error (.refusal (planner.deadEndRefusal graph id)))
      (hnext : ∀ plan, last'.1 = .ok plan → past ++ [id] <+: plan.deadEnds) :
      UpToDeadEnd planner graph past last last'

namespace UpToDeadEnd

variable {S S' : Type} {planner : Planner} {graph : Graph} {past : List Nat} {plan : Plan}

theorem isPrefix {last last' : Planned Plan × S} (h : UpToDeadEnd planner graph past last last')
    (hplan : last'.1 = .ok plan) : past <+: plan.deadEnds := by
  cases h with
  | same hpast => rw [hpast plan hplan]
  | stopped id hstop hnext => exact (List.prefix_append past [id]).trans (hnext plan hplan)

theorem ok_iff {last last' : Planned Plan × S} (h : UpToDeadEnd planner graph [] last last') {s : S} :
    last = (.ok plan, s) ↔ last' = (.ok plan, s) ∧ plan.deadEnds = [] := by
  cases h with
  | same hpast =>
    refine ⟨fun hplan => ⟨hplan, hpast plan ?_⟩, fun hplan => hplan.1⟩
    rw [hplan]
  | stopped id hstop hnext =>
    constructor
    · rintro rfl
      exact nomatch hstop
    · rintro ⟨rfl, hnone⟩
      have hprefix := hnext plan rfl
      rw [hnone] at hprefix
      exact nomatch List.prefix_nil.mp hprefix

/-- The first run ends at the first dead end of the second one. -/
theorem eq_deadEndRefusal {last last' : Planned Plan × S} (h : UpToDeadEnd planner graph [] last last')
    (hplan : last'.1 = .ok plan) {id : Nat} {rest : List Nat} (hdead : plan.deadEnds = id :: rest) :
    last.1 = .error (.refusal (planner.deadEndRefusal graph id)) := by
  cases h with
  | same hpast => exact nomatch (hpast plan hplan).symm.trans hdead
  | stopped id' hstop hnext =>
    have hprefix := hnext plan hplan
    rw [hdead, List.nil_append, List.cons_prefix_cons] at hprefix
    rw [← hprefix.1]
    exact hstop

theorem withState {o o' : Planned Plan} {s s' : S} (t : S')
    (h : UpToDeadEnd planner graph past (o, s) (o', s')) :
    UpToDeadEnd planner graph past (o, t) (o', t) := by
  cases h with
  | same hpast => exact .same hpast
  | stopped id hstop hnext => exact .stopped id hstop hnext

variable {m : Type → Type} [Monad m] [MonadExceptOf (Failure Refusal) m] [Runs m] [Deterministic m]
  {α : Type}

theorem foldlM {f g : Plan → α → m Plan} : ∀ {list : List α} {plan : Plan} {s : State m},
    (∀ a ∈ list, ∀ plan s, UpToDeadEnd planner graph plan.deadEnds (finish (f plan a) s)
      (finish (g plan a) s)) →
    UpToDeadEnd planner graph plan.deadEnds (finish (list.foldlM f plan) s)
      (finish (list.foldlM g plan) s)
  | [], plan, s, _ => by
    rw [List.foldlM_nil, List.foldlM_nil, Deterministic.finish_pure]
    refine .same fun plan' hplan' => ?_
    cases hplan'
    rfl
  | a :: list, plan, s, hstep => by
    obtain ⟨hfirst, hlist⟩ := List.forall_mem_cons.mp hstep
    have hfirst := hfirst plan s
    rw [List.foldlM_cons, List.foldlM_cons, Deterministic.finish_bind, Deterministic.finish_bind]
    generalize finish (f plan a) s = last, finish (g plan a) s = last' at hfirst
    obtain ⟨o', s'⟩ := last'
    cases hfirst with
    | same hpast =>
      cases o' with
      | error e => exact .same nofun
      | ok next =>
        rw [← hpast next rfl]
        exact foldlM hlist
    | stopped id hstop hnext =>
      obtain ⟨o, t⟩ := last
      cases hstop
      cases o' with
      | error e => exact .stopped id rfl nofun
      | ok next =>
        exact .stopped id rfl fun plan' hplan' => (hnext next rfl).trans ((foldlM hlist).isPrefix hplan')

theorem bind {x y : m Plan} {f : Plan → m Plan} {s : State m}
    (h : UpToDeadEnd planner graph past (finish x s) (finish y s))
    (hf : ∀ {plan plan' s}, (finish (f plan) s).1 = .ok plan' → plan' = plan) :
    UpToDeadEnd planner graph past (finish (x >>= f) s) (finish (y >>= f) s) := by
  rw [Deterministic.finish_bind, Deterministic.finish_bind]
  generalize finish x s = last, finish y s = last' at h
  obtain ⟨o', s'⟩ := last'
  cases h with
  | same hpast =>
    cases o' with
    | error e => exact .same nofun
    | ok plan =>
      refine .same fun plan' hplan' => ?_
      rw [hf hplan']
      exact hpast plan rfl
  | stopped id hstop hnext =>
    obtain ⟨o, t⟩ := last
    cases hstop
    cases o' with
    | error e => exact .stopped id rfl nofun
    | ok plan =>
      refine .stopped id rfl fun plan' hplan' => ?_
      rw [hf hplan']
      exact hnext plan rfl

end UpToDeadEnd

namespace Planner

variable {planner : Planner} {graph : Graph} {plan : Plan}

/-! ### Levels -/

/-- **A node is settled** alike, unless it is a dead end. -/
theorem upToDeadEnd_settleAt {e : Nat × Except Refusal Registration} {s : Unit}
    (hrejected : ∀ r, e.2 = .ok r → r.rejected = planner.rejections graph e.1) :
    UpToDeadEnd planner graph plan.deadEnds
      ((planner.refusingDeadEnds true).settleAt graph plan e, s)
      ((planner.refusingDeadEnds false).settleAt graph plan e, s) := by
  obtain ⟨id, result⟩ := e
  cases result with
  | error refusal => exact .same nofun
  | ok r =>
    have hallowing : (planner.refusingDeadEnds false).settleAt graph plan (id, .ok r) =
        .ok (plan.add id r) := by
      rw [settleAt, Plan.settle_ok, refusingDeadEnds, Bool.and_false]
      rfl
    have hrefusing : (planner.refusingDeadEnds true).settleAt graph plan (id, .ok r) =
        if r.isDeadEnd then .error (.refusal (.misconfigured (label graph id)
          (.allRejected r.rejected.length))) else .ok (plan.add id r) := by
      rw [settleAt, Plan.settle_ok, refusingDeadEnds, Bool.and_true]
    rw [hallowing, hrefusing]
    split
    · rename_i hdead
      refine .stopped id ?_ fun plan' hplan' => ?_
      · rw [deadEndRefusal, ← hrejected r rfl]
      · cases hplan'
        rw [Plan.add, if_pos hdead]
    · rename_i hlive
      refine .same fun plan' hplan' => ?_
      cases hplan'
      rw [Plan.add, if_neg hlive]

section Running

variable {m : Type → Type} [Monad m] [MonadExceptOf (Failure Refusal) m] [Runs m] [Deterministic m]
  [LawfulMonad m] {session : Session m}

theorem upToDeadEnd_planLevel {level : List Nat} {s : State m} :
    UpToDeadEnd planner graph plan.deadEnds
      (finish ((planner.refusingDeadEnds true).planLevel session graph plan level) s)
      (finish ((planner.refusingDeadEnds false).planLevel session graph plan level) s) := by
  have hregister : ∀ refusing id, (planner.refusingDeadEnds refusing).registerAt session graph
      plan.published id = planner.registerAt session graph plan.published id := fun _ _ => rfl
  simp only [planLevel, hregister, Deterministic.finish_bind]
  generalize hattempts : finish (level.mapM fun id =>
    attempt (planner.registerAt session graph plan.published id)) s = last
  obtain ⟨o, s'⟩ := last
  cases o with
  | error e =>
    refine .same fun plan' hplan' => ?_
    cases hplan'
  | ok results =>
    have hends := forall₂_of_attempts (Deterministic.canEnd_of_finish hattempts)
    simp only [Deterministic.finish_raise]
    have hsettle : UpToDeadEnd planner graph plan.deadEnds
        (finish ((level.zip results).foldlM ((planner.refusingDeadEnds true).settleAt graph) plan) ())
        (finish ((level.zip results).foldlM ((planner.refusingDeadEnds false).settleAt graph) plan)
          ()) := by
      refine UpToDeadEnd.foldlM fun e he plan s => upToDeadEnd_settleAt fun r hr => ?_
      obtain ⟨id, result⟩ := e
      cases hr
      exact rejected_of_registerAt (List.forall₂_iff_zip.mp hends |>.2 he)
    exact hsettle.withState s'

theorem upToDeadEnd_levels (session : Session m) (levels : List (List Nat)) (plan : Plan) (s : State m) :
    UpToDeadEnd planner graph plan.deadEnds
      (finish (levels.foldlM ((planner.refusingDeadEnds true).planLevel session graph) plan) s)
      (finish (levels.foldlM ((planner.refusingDeadEnds false).planLevel session graph) plan) s) :=
  UpToDeadEnd.foldlM fun _ _ _ _ => upToDeadEnd_planLevel

theorem upToDeadEnd_plan {s : State m} : UpToDeadEnd planner graph []
    (finish ((planner.refusingDeadEnds true).plan session graph) s)
    (finish ((planner.refusingDeadEnds false).plan session graph) s) := by
  refine (upToDeadEnd_levels session graph.levels {} s).bind fun {plan plan' s'} h => ?_
  obtain ⟨-, -, h⟩ := (Deterministic.canEnd_of_finish (Prod.ext h rfl)).bind_ok
  exact h.eq_of_pure_ok

/-- **Not allowing dead ends only turns them into failures.** From the same state, the planner that refuses dead
ends has a plan exactly if the one that allows them has this plan and it has no dead ends; if there is a plan
with dead ends, the graph is refused for the first of them. And in every plan, dead ends are the nodes that
have refused candidates and commit none, in the order of the levels, and the diagnostics are the refusals of
the candidates of all nodes, in this order. -/
theorem refusing_deadEnds_only_refuses (planner : Planner) (session : Session m) (graph : Graph)
    (s : State m) :
    let refusing := finish ((planner.refusingDeadEnds true).plan session graph) s
    let allowing := finish ((planner.refusingDeadEnds false).plan session graph) s
    (∀ plan s', refusing = (.ok plan, s') ↔ allowing = (.ok plan, s') ∧ plan.deadEnds = []) ∧
    (∀ plan s' id rest, allowing = (.ok plan, s') → plan.deadEnds = id :: rest →
      refusing.1 = .error (.refusal (planner.deadEndRefusal graph id))) ∧
    ∀ plan s', finish (planner.plan session graph) s = (.ok plan, s') →
      (∀ id ∈ graph.order, ∃ site strategies, planner.candidatesAt graph id = .ok (site, strategies)) ∧
      plan.deadEnds = graph.order.filter (fun id =>
        plan.commitsNothing id && !(planner.rejections graph id).isEmpty) ∧
      plan.diagnostics = graph.order.flatMap (planner.rejections graph) := by
  intro refusing allowing
  have h : UpToDeadEnd planner graph [] refusing allowing := upToDeadEnd_plan
  refine ⟨fun plan s' => h.ok_iff, fun plan s' id rest hallowing => h.eq_deadEndRefusal ?_,
    fun plan s' hplan => ?_⟩
  · rw [hallowing]
  · have hend := Deterministic.canEnd_of_finish hplan
    exact ⟨fun id hid => candidatesAt_of_plan hend hid, deadEnds_of_plan hend, diagnostics_of_plan hend⟩

end Running

end Planner

/-- Handles a node with a single strategy, in which its rows are split along the first axis. -/
def Handler.rows : Factory := fun site => do
  let input ← site.argument 0
  let output ← site.result
  let rows : Layout := .ofPairs [(0, [0])]
  return .single { name := "S0R = S0R", layouts := [(input, rows), (output, rows)] }

/-- A function of a tensor with an odd number of rows, which is returned. -/
def Graph.odd : Graph where
  nodes := [⟨0, "x", .input, [], [1], some ⟨[3, 5], .f32⟩⟩,
    ⟨1, "split", .function "split", [0], [2], some ⟨[3, 5], .f32⟩⟩,
    ⟨2, "output", .output, [1], [], none⟩]
  owner := none
  map_id_nodes := rfl
  args_lt := by decide

/-- The planner for four devices that knows this function as well. -/
def Planner.splitting : Planner where
  mesh := .square
  registry := Registry.standard.withFunction "split" Handler.rows

theorem odd_planned : ∃ plan, (Planner.splitting.refusingDeadEnds false).plan .free .odd = .ok plan ∧
    plan.deadEnds = [1] :=
  ⟨_, rfl, rfl⟩

/-- Three rows cannot be split over two devices, so the function is a dead end. -/
theorem refusing_deadEnds_only_refuses_of_odd :
    ∃ plan, (Planner.splitting.refusingDeadEnds false).plan .free .odd = .ok plan ∧
      plan.deadEnds = [1] ∧ (Planner.splitting.refusingDeadEnds true).plan .free .odd =
        .error (.refusal (.misconfigured ⟨1, "split"⟩ (.allRejected 1))) := by
  obtain ⟨plan, hplan, hdead⟩ := odd_planned
  have hrefused := (Planner.refusing_deadEnds_only_refuses .splitting .free .odd ()).2.1 plan () 1 []
    (congrArg (·, ()) hplan) hdead
  have hrefusal : Planner.splitting.deadEndRefusal .odd 1 =
      .misconfigured ⟨1, "split"⟩ (.allRejected 1) := rfl
  rw [hrefusal] at hrefused
  exact ⟨plan, hplan, hdead, hrefused⟩

end ShardPlan
