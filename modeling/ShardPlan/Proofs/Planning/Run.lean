import Mathlib.Data.List.Forall2
import ShardPlan.Planning.Session

/-! # How runs end

Planning is written for any monad that can refuse, so that the oracle and the log may keep a state of
their own. `CanEnd x o` says that the run `x` can end with the outcome `o`, from some state. Outcomes are
such a monad, in which a run ends with what it is, and so are the runs with a state.

A composed run ends only with what its parts can end with: `CanEnd.bind_ok` and `CanEnd.bind_error` take
it apart, and `CanEnd.foldlM` and `CanEnd.mapM` do so for a loop that carries a value and for a
traversal. -/

namespace ShardPlan

/-- **The monads that planning runs in.** -/
class Runs (m : Type → Type) [Monad m] [MonadExceptOf (Failure Refusal) m] where
  /-- The run can end with the outcome. -/
  CanEnd {α : Type} : m α → Planned α → Prop
  eq_of_pure {α : Type} {a : α} {o : Planned α} : CanEnd (pure a) o → o = .ok a
  eq_of_throw {α : Type} {e : Failure Refusal} {o : Planned α} : CanEnd (throw e) o → o = .error e
  of_bind {α β : Type} {x : m α} {f : α → m β} {o : Planned β} : CanEnd (x >>= f) o →
    (∃ a, CanEnd x (.ok a) ∧ CanEnd (f a) o) ∨ ∃ e, CanEnd x (.error e) ∧ o = .error e
  of_tryCatch {α : Type} {x : m α} {f : Failure Refusal → m α} {o : Planned α} :
    CanEnd (tryCatch x f) o →
      (∃ a, CanEnd x (.ok a) ∧ o = .ok a) ∨ ∃ e, CanEnd x (.error e) ∧ CanEnd (f e) o
  /-- How a run goes on matters only for the values that it can give. -/
  bind_congr {α β : Type} {x : m α} {f g : α → m β} :
    (∀ a, CanEnd x (.ok a) → f a = g a) → x >>= f = x >>= g

export Runs (CanEnd)

/-! ### Outcomes and runs with a state -/

instance : Runs Planned where
  CanEnd x o := x = o
  eq_of_pure h := h.symm
  eq_of_throw h := h.symm
  of_bind {α β x f o} h := by
    cases x with
    | ok a => exact .inl ⟨a, rfl, h⟩
    | error e => exact .inr ⟨e, rfl, h.symm⟩
  of_tryCatch {α x f o} h := by
    cases x with
    | ok a => exact .inl ⟨a, rfl, h.symm⟩
    | error e => exact .inr ⟨e, rfl, h⟩
  bind_congr {α β x f g} h := by
    cases x with
    | ok a => exact h a rfl
    | error e => rfl

section State

variable {σ α β : Type}

theorem run_bind (x : ExceptT (Failure Refusal) (StateM σ) α)
    (f : α → ExceptT (Failure Refusal) (StateM σ) β) (s : σ) :
    (x >>= f).run.run s = match x.run.run s with
      | (.ok a, s') => (f a).run.run s'
      | (.error e, s') => (.error e, s') := by
  rw [ExceptT.run_bind, StateT.run_bind]
  rcases x.run.run s with ⟨_ | _, s'⟩
  · rfl
  · rfl

theorem run_tryCatch (x : ExceptT (Failure Refusal) (StateM σ) α)
    (f : Failure Refusal → ExceptT (Failure Refusal) (StateM σ) α) (s : σ) :
    (tryCatch x f).run.run s = match x.run.run s with
      | (.ok a, s') => (.ok a, s')
      | (.error e, s') => (f e).run.run s' := by
  rw [ExceptT.run_tryCatch, StateT.run_bind]
  rcases x.run.run s with ⟨_ | _, s'⟩
  · rfl
  · rfl

end State

instance {σ : Type} : Runs (ExceptT (Failure Refusal) (StateM σ)) where
  CanEnd x o := ∃ s s', x.run.run s = (o, s')
  eq_of_pure := fun ⟨_, _, h⟩ => (congrArg Prod.fst h).symm
  eq_of_throw := fun ⟨_, _, h⟩ => (congrArg Prod.fst h).symm
  of_bind {α β x f o} := by
    rintro ⟨s, s', h⟩
    rw [run_bind] at h
    rcases hx : x.run.run s with ⟨e | a, s₁⟩
    · rw [hx] at h
      exact .inr ⟨e, ⟨s, s₁, hx⟩, (congrArg Prod.fst h).symm⟩
    · rw [hx] at h
      exact .inl ⟨a, ⟨s, s₁, hx⟩, s₁, s', h⟩
  of_tryCatch {α x f o} := by
    rintro ⟨s, s', h⟩
    rw [run_tryCatch] at h
    rcases hx : x.run.run s with ⟨e | a, s₁⟩
    · rw [hx] at h
      exact .inr ⟨e, ⟨s, s₁, hx⟩, s₁, s', h⟩
    · rw [hx] at h
      exact .inl ⟨a, ⟨s, s₁, hx⟩, (congrArg Prod.fst h).symm⟩
  bind_congr {α β x f g} h := by
    refine ExceptT.ext (funext fun s => ?_)
    change (x >>= f).run.run s = (x >>= g).run.run s
    rw [run_bind, run_bind]
    rcases hx : x.run.run s with ⟨e | a, s₁⟩
    · rfl
    · exact congrArg (fun y => y.run.run s₁) (h a ⟨s, s₁, hx⟩)

/-! ### Taking runs apart -/

namespace Runs

variable {m : Type → Type} [Monad m] [MonadExceptOf (Failure Refusal) m] [Runs m] {α β : Type}

theorem CanEnd.bind_ok {x : m α} {f : α → m β} {b : β} (h : CanEnd (x >>= f) (.ok b)) :
    ∃ a, CanEnd x (.ok a) ∧ CanEnd (f a) (.ok b) := by
  rcases of_bind h with h | ⟨e, -, he⟩
  · exact h
  · exact nomatch he

theorem CanEnd.bind_error {x : m α} {f : α → m β} {e : Failure Refusal}
    (h : CanEnd (x >>= f) (.error e)) :
    CanEnd x (.error e) ∨ ∃ a, CanEnd x (.ok a) ∧ CanEnd (f a) (.error e) := by
  rcases of_bind h with h | ⟨e', hx, he⟩
  · exact .inr h
  · cases he
    exact .inl hx

theorem CanEnd.eq_of_pure_ok {a b : α} (h : CanEnd (pure a : m α) (.ok b)) : b = a :=
  Except.ok.inj (eq_of_pure h)

theorem not_canEnd_pure_error {a : α} {e : Failure Refusal} : ¬ CanEnd (pure a : m α) (.error e) :=
  fun h => nomatch eq_of_pure h

theorem CanEnd.of_raise {x : Planned α} {o : Planned α} (h : CanEnd (raise x : m α) o) : x = o := by
  cases x with
  | ok a => exact (eq_of_pure h).symm
  | error e => exact (eq_of_throw h).symm

theorem CanEnd.of_raise_bind {x : Planned α} {a : α} (hx : x = .ok a) {f : α → m β} {o : Planned β}
    (h : CanEnd (raise x >>= f) o) : CanEnd (f a) o := by
  rcases of_bind h with ⟨a', ha', h⟩ | ⟨e, he, -⟩
  · cases hx.symm.trans ha'.of_raise
    exact h
  · exact nomatch hx.symm.trans he.of_raise

theorem CanEnd.of_raiseChecked {x : Checked α} {a : α}
    (h : CanEnd (raiseChecked x : m α) (.ok a)) : x = .ok a := by
  have hx := h.of_raise
  cases x with
  | ok a' => exact congrArg Except.ok (Except.ok.inj hx)
  | error f => exact nomatch hx

/-- An attempt ends with a fault, or else with how the run ends. -/
theorem CanEnd.of_attempt [LawfulMonad m] {x : m α} {o : Planned (Except Refusal α)}
    (h : CanEnd (attempt x) o) :
    (∃ f, o = .error (.fault f) ∧ CanEnd x (.error (.fault f))) ∨
      ∃ r, o = .ok r ∧ CanEnd x (r.mapError .refusal) := by
  rw [attempt, map_eq_pure_bind] at h
  rcases of_tryCatch h with ⟨r, hr, rfl⟩ | ⟨e, he, ho⟩
  · obtain ⟨a, ha, hr⟩ := hr.bind_ok
    cases hr.eq_of_pure_ok
    exact .inr ⟨.ok a, rfl, ha⟩
  · rcases he.bind_error with hx | ⟨a, -, ha⟩
    · cases e with
      | fault f => exact .inl ⟨f, eq_of_throw ho, hx⟩
      | refusal r => exact .inr ⟨.error r, eq_of_pure ho, hx⟩
    · exact absurd ha not_canEnd_pure_error

/-! ### Loops -/

/-- **A loop that carries a value** keeps what each of its steps keeps, up to the step that fails if one
does. The elements before the loop are `done`. -/
theorem CanEnd.foldlM {f : β → α → m β} (I : List α → β → Prop) (done : List α) : ∀ {list : List α}
    {b : β} {o : Planned β}, CanEnd (list.foldlM f b) o → I done b →
    (∀ {past a rest b b'}, done ++ list = past ++ a :: rest → I past b → CanEnd (f b a) (.ok b') →
      I (past ++ [a]) b') →
    (∃ b', o = .ok b' ∧ I (done ++ list) b') ∨
      ∃ past a rest b e, done ++ list = past ++ a :: rest ∧ I past b ∧ o = .error e ∧
        CanEnd (f b a) (.error e)
  | [], b, o, h, hb, _ => .inl ⟨b, eq_of_pure h, by rwa [List.append_nil]⟩
  | a :: list, b, o, h, hb, hstep => by
    rw [List.foldlM_cons] at h
    have happ : done ++ a :: list = (done ++ [a]) ++ list := by simp
    rcases of_bind h with ⟨b', hb', hrest⟩ | ⟨e, he, ho⟩
    · rw [happ] at hstep ⊢
      exact hrest.foldlM I (done ++ [a]) (hstep happ.symm hb hb') hstep
    · exact .inr ⟨done, a, list, b, e, rfl, hb, ho, he⟩

theorem CanEnd.foldlM_ok {f : β → α → m β} (I : List α → β → Prop) {list : List α} {b b' : β}
    (h : CanEnd (list.foldlM f b) (.ok b')) (hb : I [] b)
    (hstep : ∀ {past a rest b b'}, list = past ++ a :: rest → I past b → CanEnd (f b a) (.ok b') →
      I (past ++ [a]) b') : I list b' := by
  rcases h.foldlM I [] hb hstep with ⟨_, heq, hlast⟩ | ⟨_, _, _, _, _, _, _, heq, _⟩
  · cases heq
    exact hlast
  · exact nomatch heq

/-- A loop that fails does so at a step, before which it has kept what its steps keep. -/
theorem CanEnd.foldlM_error {f : β → α → m β} (I : List α → β → Prop) {list : List α} {b : β}
    {e : Failure Refusal} (h : CanEnd (list.foldlM f b) (.error e)) (hb : I [] b)
    (hstep : ∀ {past a rest b b'}, list = past ++ a :: rest → I past b → CanEnd (f b a) (.ok b') →
      I (past ++ [a]) b') :
    ∃ past a rest b, list = past ++ a :: rest ∧ I past b ∧ CanEnd (f b a) (.error e) := by
  rcases h.foldlM I [] hb hstep with ⟨_, heq, -⟩ | ⟨past, a, rest, b, e, hlist, hb, heq, he⟩
  · exact nomatch heq
  · cases heq
    exact ⟨past, a, rest, b, hlist, hb, he⟩

theorem CanEnd.mapM [LawfulMonad m] {f : α → m β} : ∀ {list : List α} {o : Planned (List β)},
    CanEnd (list.mapM f) o →
    (∃ bs, o = .ok bs ∧ List.Forall₂ (fun a b => CanEnd (f a) (.ok b)) list bs) ∨
      ∃ a ∈ list, ∃ e, o = .error e ∧ CanEnd (f a) (.error e)
  | [], o, h => .inl ⟨[], eq_of_pure (by rwa [List.mapM_nil] at h), .nil⟩
  | a :: list, o, h => by
    rw [List.mapM_cons] at h
    rcases of_bind h with ⟨b, hb, h⟩ | ⟨e, he, ho⟩
    · rcases of_bind h with ⟨bs, hbs, h⟩ | ⟨e, he, ho⟩
      · rcases hbs.mapM with ⟨bs', heq, hall⟩ | ⟨_, _, _, heq, -⟩
        · cases heq
          exact .inl ⟨b :: bs, eq_of_pure h, .cons hb hall⟩
        · exact nomatch heq
      · rcases he.mapM with ⟨_, heq, -⟩ | ⟨a', ha', e', heq, he'⟩
        · exact nomatch heq
        · cases heq
          exact .inr ⟨a', List.mem_cons_of_mem a ha', e, ho, he'⟩
    · exact .inr ⟨a, List.mem_cons_self, e, ho, he⟩

theorem CanEnd.mapM_ok [LawfulMonad m] {f : α → m β} {list : List α} {bs : List β}
    (h : CanEnd (list.mapM f) (.ok bs)) :
    List.Forall₂ (fun a b => CanEnd (f a) (.ok b)) list bs := by
  rcases h.mapM with ⟨_, heq, hall⟩ | ⟨_, _, _, heq, -⟩
  · cases heq
    exact hall
  · exact nomatch heq

theorem CanEnd.mapM_error [LawfulMonad m] {f : α → m β} {list : List α} {e : Failure Refusal}
    (h : CanEnd (list.mapM f) (.error e)) : ∃ a ∈ list, CanEnd (f a) (.error e) := by
  rcases h.mapM with ⟨_, heq, -⟩ | ⟨a, ha, _, heq, he⟩
  · exact nomatch heq
  · cases heq
    exact ⟨a, ha, he⟩

/-! ### Runs that are the same -/

/-- **Loops are the same** if their steps are wherever the loops come. The elements before the loop are
`done`. -/
theorem foldlM_congr {f g : β → α → m β} (I : List α → β → Prop) (done : List α) :
    ∀ {list : List α} {b : β}, I done b →
      (∀ {past a rest b}, done ++ list = past ++ a :: rest → I past b →
        f b a = g b a ∧ ∀ {b'}, CanEnd (f b a) (.ok b') → I (past ++ [a]) b') →
      list.foldlM f b = list.foldlM g b
  | [], _, _, _ => rfl
  | a :: list, b, hb, hstep => by
    have happ : done ++ a :: list = (done ++ [a]) ++ list := by simp
    obtain ⟨hsame, hnext⟩ := hstep rfl hb
    rw [List.foldlM_cons, List.foldlM_cons, ← hsame]
    refine bind_congr fun b' hb' => ?_
    rw [happ] at hstep
    exact foldlM_congr I (done ++ [a]) (hnext hb') hstep

omit [MonadExceptOf (Failure Refusal) m] [Runs m] in
theorem mapM_congr [LawfulMonad m] {f g : α → m β} : ∀ {list : List α},
    (∀ a ∈ list, f a = g a) → list.mapM f = list.mapM g
  | [], _ => rfl
  | a :: list, h => by
    obtain ⟨ha, hlist⟩ := List.forall_mem_cons.mp h
    rw [List.mapM_cons, List.mapM_cons, ha, mapM_congr hlist]

end Runs

end ShardPlan
