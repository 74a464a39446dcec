import ShardPlan.Planning.Plan
import ShardPlan.Proofs.Planning.Registration

/-! # Sessions that lead to the same plan

Planning is written for any monad that can refuse. A relation between the runs of two such monads that holds
of equal results and is kept by sequencing and by handling failures (`Simulation`) therefore carries over from
the two sessions to all that is run with them: to resharding, to registrations and to whole plans
(`Simulation.plan`). -/

namespace ShardPlan

/-- **A relation between the runs of two monads** that planning cannot leave. -/
structure Simulation (m n : Type → Type) [Monad m] [MonadExceptOf (Failure Refusal) m] [Monad n]
    [MonadExceptOf (Failure Refusal) n] where
  /-- The runs do the same. -/
  Rel {α : Type} : m α → n α → Prop
  pure {α : Type} (a : α) : Rel (Pure.pure a) (Pure.pure a)
  throw {α : Type} (e : Failure Refusal) : Rel (throw e : m α) (throw e)
  bind {α β : Type} {x : m α} {y : n α} {f : α → m β} {g : α → n β} :
    Rel x y → (∀ a, Rel (f a) (g a)) → Rel (x >>= f) (y >>= g)
  tryCatch {α : Type} {x : m α} {y : n α} {f : Failure Refusal → m α} {g : Failure Refusal → n α} :
    Rel x y → (∀ e, Rel (f e) (g e)) → Rel (tryCatch x f) (tryCatch y g)

namespace Simulation

variable {m n : Type → Type} [Monad m] [MonadExceptOf (Failure Refusal) m] [Monad n]
  [MonadExceptOf (Failure Refusal) n] (sim : Simulation m n) {α β : Type}

/-! ### Runs in parts -/

theorem raise (x : Planned α) : sim.Rel (ShardPlan.raise x) (ShardPlan.raise x) := by
  cases x with
  | ok a => exact sim.pure a
  | error e => exact sim.throw e

theorem attempt [LawfulMonad m] [LawfulMonad n] {x : m α} {y : n α} (h : sim.Rel x y) :
    sim.Rel (ShardPlan.attempt x) (ShardPlan.attempt y) := by
  unfold ShardPlan.attempt
  refine sim.tryCatch ?_ fun e => ?_
  · rw [map_eq_pure_bind, map_eq_pure_bind]
    exact sim.bind h fun a => sim.pure (Except.ok a)
  · cases e with
    | fault f => exact sim.throw (.fault f)
    | refusal refusal => exact sim.pure (Except.error refusal)

theorem mapM [LawfulMonad m] [LawfulMonad n] {f : α → m β} {g : α → n β}
    (h : ∀ a, sim.Rel (f a) (g a)) : ∀ list : List α, sim.Rel (list.mapM f) (list.mapM g)
  | [] => by
    rw [List.mapM_nil, List.mapM_nil]
    exact sim.pure []
  | a :: list => by
    rw [List.mapM_cons, List.mapM_cons]
    exact sim.bind (h a) fun b => sim.bind (mapM h list) fun bs => sim.pure (b :: bs)

theorem foldlM {f : β → α → m β} {g : β → α → n β} (h : ∀ b a, sim.Rel (f b a) (g b a)) :
    ∀ (list : List α) (b : β), sim.Rel (list.foldlM f b) (list.foldlM g b)
  | [], b => sim.pure b
  | a :: list, b => by
    rw [List.foldlM_cons, List.foldlM_cons]
    exact sim.bind (h b a) fun b' => foldlM h list b'

/-! ### Planning -/

/-- **Sessions that do the same** when they are asked or told. -/
structure Sessions (session : Session m) (session' : Session n) : Prop where
  ask : ∀ t source target, sim.Rel (session.ask t source target) (session'.ask t source target)
  note : ∀ event, sim.Rel (session.note event) (session'.note event)

variable {sim} {session : Session m} {session' : Session n} (h : sim.Sessions session session')
include h

theorem addTransition (site : Site) (source : Layout) (cost : StepCost)
    (demand : TensorType × Layout) : sim.Rel (ShardPlan.addTransition session site source cost demand)
      (ShardPlan.addTransition session' site source cost demand) := by
  refine sim.bind (h.ask demand.1 source demand.2) fun transition => ?_
  split
  · exact sim.pure _
  · exact sim.raise _

theorem reshardingCosts [LawfulMonad m] [LawfulMonad n] (site : Site) (published : Published)
    (s : Strategy) (id : Nat) : sim.Rel (ShardPlan.reshardingCosts session site published s id)
      (ShardPlan.reshardingCosts session' site published s id) :=
  sim.bind (sim.raise _) fun _ => sim.bind (sim.raise _) fun _ =>
    sim.bind (sim.raise _) fun demands => sim.mapM (fun _ =>
      sim.bind (sim.raise _) fun source => sim.foldlM (addTransition h site source) demands .zero) _

theorem reshard [LawfulMonad m] [LawfulMonad n] (site : Site) (published : Published)
    (s : Strategy) : sim.Rel (ShardPlan.reshard session site published s)
      (ShardPlan.reshard session' site published s) :=
  sim.foldlM (fun s id => sim.bind (reshardingCosts h site published s id) fun _ => sim.pure _) _ s

theorem generateAll [LawfulMonad m] [LawfulMonad n] (site : Site) (handler : Handler) :
    ∀ generators : List Generator, sim.Rel (ShardPlan.generateAll session site handler generators)
      (ShardPlan.generateAll session' site handler generators)
  | [] => sim.pure []
  | _ :: generators =>
    sim.bind (sim.raise _) fun generated => sim.bind (h.note _) fun _ =>
      sim.bind (sim.mapM (fun s => sim.raise (handler.refine s)) generated) fun _ =>
        sim.bind (generateAll site handler generators) fun _ => sim.pure _

theorem judge [LawfulMonad m] [LawfulMonad n] (site : Site) (published : Published) (pricing : Bool) :
    ∀ strategies : List Strategy, sim.Rel (ShardPlan.judge session site published pricing strategies)
      (ShardPlan.judge session' site published pricing strategies)
  | [] => sim.pure ([], [])
  | s :: rest => by
    have hrest := judge site published pricing rest
    refine sim.bind (sim.raise _) fun misfit => ?_
    cases misfit with
    | some refusal => exact sim.bind (h.note _) fun _ => sim.bind hrest fun _ => sim.pure _
    | none =>
      cases pricing with
      | true =>
        exact sim.bind (reshard h site published s) fun _ =>
          sim.bind hrest fun _ => sim.pure _
      | false => exact sim.bind (sim.pure s) fun _ => sim.bind hrest fun _ => sim.pure _

theorem registerChecked [LawfulMonad m] [LawfulMonad n] (site : Site) (published : Published)
    (handler : Handler) (pricing : Bool) :
    sim.Rel (ShardPlan.registerChecked session site published handler pricing)
      (ShardPlan.registerChecked session' site published handler pricing) :=
  sim.bind (sim.raise _) fun generators => sim.bind (generateAll h site handler generators)
    fun strategies => sim.bind (judge h site published pricing strategies) fun _ =>
      sim.bind (h.note _) fun _ => sim.pure _

theorem register [LawfulMonad m] [LawfulMonad n] (site : Site) (published : Published)
    (handler : Handler) (pricing : Bool) :
    sim.Rel (ShardPlan.register session site published handler pricing)
      (ShardPlan.register session' site published handler pricing) := by
  have hchecked := registerChecked h site published handler pricing
  cases pricing with
  | false => exact hchecked
  | true =>
    rw [register_true, register_true]
    exact sim.bind (sim.raise _) fun _ => hchecked

variable (planner : Planner) (graph : Graph)

theorem registerAt [LawfulMonad m] [LawfulMonad n] (published : Published) (id : Nat) :
    sim.Rel (planner.registerAt session graph published id)
      (planner.registerAt session' graph published id) :=
  sim.bind (sim.raise _) fun _ => register h _ published _ _

theorem planLevel [LawfulMonad m] [LawfulMonad n] (plan : Plan) (level : List Nat) :
    sim.Rel (planner.planLevel session graph plan level)
      (planner.planLevel session' graph plan level) := by
  refine sim.bind (sim.mapM (fun id => sim.attempt ?_) level) fun results => sim.raise _
  exact registerAt h planner graph plan.published id

/-- **Sessions that do the same lead to the same plan.** -/
theorem plan [LawfulMonad m] [LawfulMonad n] :
    sim.Rel (planner.plan session graph) (planner.plan session' graph) :=
  sim.bind (sim.foldlM (planLevel h planner graph) _ _) fun _ => sim.bind (h.note _) fun _ => sim.pure _

end Simulation

end ShardPlan
