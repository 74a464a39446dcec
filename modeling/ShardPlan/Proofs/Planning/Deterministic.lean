import ShardPlan.Proofs.Planning.Run

/-! # Runs from a state

`CanEnd` says how a run can end, from some state. In the monads that planning is used in, a run is determined
by the state that it starts from: `finish x s` is the outcome of the run `x` from `s`, together with the state
that it leaves (`Deterministic`). Two runs can so be compared from one state, and a run that is shown to be
`pure` or `throw` is known to end in this way from all states. -/

namespace ShardPlan

/-- **The monads whose runs are determined** by the state that they start from. -/
class Deterministic (m : Type → Type) [Monad m] [MonadExceptOf (Failure Refusal) m] [Runs m] where
  State : Type
  /-- The outcome of a run from a state, and the state that it leaves. -/
  finish {α : Type} : m α → State → Planned α × State
  canEnd_iff {α : Type} {x : m α} {o : Planned α} : CanEnd x o ↔ ∃ s s', finish x s = (o, s')
  ext {α : Type} {x y : m α} : (∀ s, finish x s = finish y s) → x = y
  finish_pure {α : Type} (a : α) (s : State) : finish (pure a : m α) s = (.ok a, s)
  finish_throw {α : Type} (e : Failure Refusal) (s : State) :
    finish (throw e : m α) s = (.error e, s)
  finish_bind {α β : Type} (x : m α) (f : α → m β) (s : State) :
    finish (x >>= f) s = match finish x s with
      | (.ok a, s') => finish (f a) s'
      | (.error e, s') => (.error e, s')
  finish_tryCatch {α : Type} (x : m α) (f : Failure Refusal → m α) (s : State) :
    finish (tryCatch x f) s = match finish x s with
      | (.ok a, s') => (.ok a, s')
      | (.error e, s') => finish (f e) s'

export Deterministic (State finish)

/-- An outcome has nothing to remember. -/
instance : Deterministic Planned where
  State := Unit
  finish x s := (x, s)
  canEnd_iff {α x o} := ⟨fun h => ⟨(), (), congrArg (·, ()) h⟩, fun ⟨_, _, h⟩ => congrArg Prod.fst h⟩
  ext h := congrArg Prod.fst (h ())
  finish_pure _ _ := rfl
  finish_throw _ _ := rfl
  finish_bind x f s := by
    cases x with
    | ok a => rfl
    | error e => rfl
  finish_tryCatch x f s := by
    cases x with
    | ok a => rfl
    | error e => rfl

instance {σ : Type} : Deterministic (ExceptT (Failure Refusal) (StateM σ)) where
  State := σ
  finish x s := x.run.run s
  canEnd_iff := Iff.rfl
  ext h := ExceptT.ext (funext h)
  finish_pure _ _ := rfl
  finish_throw _ _ := rfl
  finish_bind := run_bind
  finish_tryCatch := run_tryCatch

namespace Deterministic

variable {m : Type → Type} [Monad m] [MonadExceptOf (Failure Refusal) m] [Runs m] [Deterministic m]
  {α β : Type}

theorem canEnd_of_finish {x : m α} {s s' : State m} {o : Planned α} (h : finish x s = (o, s')) :
    CanEnd x o :=
  canEnd_iff.mpr ⟨s, s', h⟩

theorem finish_raise (x : Planned α) (s : State m) : finish (raise x : m α) s = (x, s) := by
  cases x with
  | ok a => exact finish_pure a s
  | error e => exact finish_throw e s

theorem throw_bind (e : Failure Refusal) (f : α → m β) : (throw e : m α) >>= f = throw e := by
  refine ext fun s => ?_
  rw [finish_bind, finish_throw, finish_throw]

end Deterministic

/-! ### Runs that always end with one value -/

/-- **The run always ends with the value**, from every state. -/
def Always {m : Type → Type} [Monad m] [MonadExceptOf (Failure Refusal) m] [Runs m] [Deterministic m]
    {α : Type} (x : m α) (a : α) : Prop :=
  ∀ s, ∃ s', finish x s = (.ok a, s')

namespace Always

variable {m : Type → Type} [Monad m] [MonadExceptOf (Failure Refusal) m] [Runs m] [Deterministic m]
  {α β : Type}

theorem pure (a : α) : Always (Pure.pure a : m α) a := fun s => ⟨s, Deterministic.finish_pure a s⟩

theorem bind {x : m α} {f : α → m β} {a : α} {b : β} (hx : Always x a) (hf : Always (f a) b) :
    Always (x >>= f) b := by
  intro s
  obtain ⟨s₁, hs₁⟩ := hx s
  obtain ⟨s₂, hs₂⟩ := hf s₁
  refine ⟨s₂, ?_⟩
  rw [Deterministic.finish_bind, hs₁]
  exact hs₂

theorem raise {x : Planned α} {a : α} (h : x = .ok a) : Always (ShardPlan.raise x : m α) a := by
  rw [h]
  exact pure a

theorem attempt [LawfulMonad m] {x : m α} {a : α} (h : Always x a) :
    Always (ShardPlan.attempt x) (.ok a) := by
  intro s
  obtain ⟨s', hs'⟩ := h s
  refine ⟨s', ?_⟩
  rw [ShardPlan.attempt, map_eq_pure_bind, Deterministic.finish_tryCatch, Deterministic.finish_bind, hs']
  dsimp only
  rw [Deterministic.finish_pure]

theorem mapM [LawfulMonad m] {f : α → m β} {list : List α} {bs : List β}
    (h : List.Forall₂ (fun a b => Always (f a) b) list bs) : Always (list.mapM f) bs := by
  induction h with
  | nil =>
    rw [List.mapM_nil]
    exact pure []
  | cons hb _ ih =>
    rw [List.mapM_cons]
    exact hb.bind (ih.bind (pure _))

end Always

end ShardPlan
