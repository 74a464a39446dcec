import ShardPlan.Planning.Registration
import ShardPlan.Proofs.Arithmetic.Checked
import ShardPlan.Proofs.Arithmetic.Overflow
import ShardPlan.Proofs.Planning.Run

/-! # What a strategy costs to come to

The costs that a strategy gets for a predecessor are one for each strategy of the predecessor: what the
oracle answers for every operand that the predecessor feeds, added up (`reshardingCosts_ok`), where each
answer was found usable (`reshardingCosts_usable`). A strategy
that is priced gets such costs for each of its predecessors and is otherwise left as it is (`reshard_ok`).
With an oracle whose answers can be used, pricing fails only by overflow or for what the graph and the
strategies lack (`Session.IsUsable.reshardingCosts_overflow`). -/

namespace ShardPlan

section Running

variable {m : Type → Type} [Monad m] [MonadExceptOf (Failure Refusal) m] [Runs m]

/-! ### Answers of the oracle -/

/-- The oracle can answer with the transition when it is asked how the data of an operand come from the
layout `source` to the layout that goes with the operand. -/
def Session.Answers (session : Session m) (source : Layout) (e : Operand × Layout)
    (transition : Transition) : Prop :=
  ∃ t, e.1.tensor = some t ∧ CanEnd (session.ask t source e.2) (.ok transition)

/-- **The cost of coming from a strategy of a predecessor**: the answers for the operands that the
predecessor feeds, in order, added up from zero. -/
def Strategy.ComesAt (session : Session m) (s : Strategy) (predecessor : Nat) (candidate : Strategy)
    (cost : StepCost) : Prop :=
  ∃ result transitions, candidate.result? = some result ∧
    List.Forall₂ (session.Answers result.2) (s.argumentsFrom predecessor) transitions ∧
      cost = StepCost.sum (transitions.map Transition.cost)

/-- **The same cost, added up from usable answers only.** -/
def Strategy.ComesUsably (session : Session m) (s : Strategy) (predecessor : Nat) (candidate : Strategy)
    (cost : StepCost) : Prop :=
  ∃ result transitions, candidate.result? = some result ∧
    List.Forall₂ (session.Answers result.2) (s.argumentsFrom predecessor) transitions ∧
      (∀ tr ∈ transitions, tr.cost.isUsable = true) ∧
        cost = StepCost.sum (transitions.map Transition.cost)

theorem Strategy.ComesUsably.comesAt {session : Session m} {s candidate : Strategy} {predecessor : Nat}
    {cost : StepCost} (h : s.ComesUsably session predecessor candidate cost) :
    s.ComesAt session predecessor candidate cost := by
  obtain ⟨result, transitions, hresult, htransitions, -, hcost⟩ := h
  exact ⟨result, transitions, hresult, htransitions, hcost⟩

variable {session : Session m} {site : Site} {published : Published}

theorem typedOperands_eq_ok_iff {operands : List (Operand × Layout)}
    {demands : List (TensorType × Layout)} : site.typedOperands operands = .ok demands ↔
      List.Forall₂ (fun e d => ∃ t, e.1.tensor = some t ∧ d = (t, e.2)) operands demands := by
  rw [Site.typedOperands, mapM_eq_ok_iff]
  refine ⟨fun h => h.imp fun e d hd => ?_, fun h => h.imp fun e d hd => ?_⟩
  · split at hd
    · exact nomatch hd
    · rename_i t ht
      cases hd
      exact ⟨t, ht, rfl⟩
  · obtain ⟨t, ht, rfl⟩ := hd
    rw [ht]

theorem foldlM_addTransition {source : Layout} {operands : List (Operand × Layout)}
    {demands : List (TensorType × Layout)} {cost total : StepCost}
    (hdemands : site.typedOperands operands = .ok demands)
    (h : CanEnd (demands.foldlM (addTransition session site source) cost) (.ok total)) :
    ∃ transitions, List.Forall₂ (session.Answers source) operands transitions ∧
      (∀ tr ∈ transitions, tr.cost.isUsable = true) ∧
        total = transitions.foldl (fun cost tr => cost + tr.cost) cost := by
  induction typedOperands_eq_ok_iff.mp hdemands generalizing cost with
  | nil => exact ⟨[], .nil, nofun, h.eq_of_pure_ok⟩
  | @cons e d operands demands hd hrest ih =>
    obtain ⟨t, ht, rfl⟩ := hd
    rw [List.foldlM_cons] at h
    obtain ⟨next, hnext, h⟩ := h.bind_ok
    obtain ⟨tr, htr, hnext⟩ := hnext.bind_ok
    split at hnext
    · rename_i husable
      cases hnext.eq_of_pure_ok
      obtain ⟨transitions, hall, hothers, htotal⟩ := ih (typedOperands_eq_ok_iff.mpr hrest) h
      exact ⟨tr :: transitions, .cons ⟨t, ht, htr⟩ hall,
        List.forall_mem_cons.mpr ⟨husable, hothers⟩, htotal⟩
    · have hcost := hnext.of_raise
      obtain ⟨_, _, hcost⟩ := bind_eq_ok_iff.mp hcost
      obtain ⟨_, _, hcost⟩ := bind_eq_ok_iff.mp hcost
      exact nomatch hcost

theorem typedOperands_of_demands {previous : Node} {id : Nat} {s : Strategy}
    {demands : List (TensorType × Layout)} (h : site.demands previous id s = .ok demands) :
    s.argumentsFrom id ≠ [] ∧ site.typedOperands (s.argumentsFrom id) = .ok demands := by
  obtain ⟨operands, hoperands, h⟩ := bind_eq_ok_iff.mp h
  split at h
  · exact nomatch h
  · rename_i hne
    cases h
    refine ⟨fun hnil => ?_, hoperands⟩
    rw [hnil] at hoperands
    cases hoperands
    exact hne rfl

theorem get?_of_candidatesOf {previous : Node} {id : Nat} {candidates : Candidates}
    (h : site.candidatesOf published previous id = .ok candidates) :
    published.get? id = some candidates := by
  unfold Site.candidatesOf at h
  split at h
  · exact nomatch h
  · rename_i c hc
    cases h
    exact hc

theorem result?_of_supply {previous : Node} {candidate : Strategy} {source : Layout}
    (h : site.supply previous candidate = .ok source) :
    ∃ result, candidate.result? = some result ∧ source = result.2 := by
  unfold Site.supply at h
  split at h
  · exact nomatch h
  · rename_i result hresult
    cases h
    exact ⟨result, hresult, rfl⟩

/-- **A predecessor is priced strategy by strategy**: it has published strategies, feeds an operand, and
each of its strategies has a result that every such operand can come from, at a usable cost. -/
theorem reshardingCosts_usable [LawfulMonad m] {s : Strategy} {id : Nat} {costs : List StepCost}
    (h : CanEnd (reshardingCosts session site published s id) (.ok costs)) :
    s.argumentsFrom id ≠ [] ∧ ∃ candidates, published.get? id = some candidates ∧
      List.Forall₂ (s.ComesUsably session id) candidates.strategies costs := by
  obtain ⟨previous, -, h⟩ := h.bind_ok
  obtain ⟨candidates, hcandidates, h⟩ := h.bind_ok
  obtain ⟨demands, hdemands, h⟩ := h.bind_ok
  obtain ⟨hne, htyped⟩ := typedOperands_of_demands hdemands.of_raise
  refine ⟨hne, candidates, get?_of_candidatesOf hcandidates.of_raise,
    h.mapM_ok.imp fun candidate cost hcost => ?_⟩
  obtain ⟨source, hsource, hcost⟩ := hcost.bind_ok
  obtain ⟨transitions, htransitions, husable, hsum⟩ := foldlM_addTransition htyped hcost
  obtain ⟨result, hresult, rfl⟩ := result?_of_supply hsource.of_raise
  refine ⟨result, transitions, hresult, htransitions, husable, ?_⟩
  rw [hsum, StepCost.sum, List.foldl_map]

theorem reshardingCosts_ok [LawfulMonad m] {s : Strategy} {id : Nat} {costs : List StepCost}
    (h : CanEnd (reshardingCosts session site published s id) (.ok costs)) :
    s.argumentsFrom id ≠ [] ∧ ∃ candidates, published.get? id = some candidates ∧
      List.Forall₂ (s.ComesAt session id) candidates.strategies costs := by
  obtain ⟨hne, candidates, hpublished, hall⟩ := reshardingCosts_usable h
  exact ⟨hne, candidates, hpublished, hall.imp fun _ _ hcomes => hcomes.comesAt⟩

/-! ### Pricing against all predecessors -/

theorem reshard_ok {s priced : Strategy}
    (h : CanEnd (reshard session site published s) (.ok priced)) :
    priced = { s with resharding := priced.resharding } ∧
      (∀ id ∈ site.node.predecessors, ∃ costs,
        CanEnd (reshardingCosts session site published s id) (.ok costs) ∧
          priced.resharding.get? id = some costs) ∧
      ∀ id ∉ site.node.predecessors, priced.resharding.get? id = s.resharding.get? id := by
  refine h.foldlM_ok (fun done current =>
      current = { s with resharding := current.resharding } ∧
        (∀ id ∈ done, ∃ costs, CanEnd (reshardingCosts session site published s id) (.ok costs) ∧
          current.resharding.get? id = some costs) ∧
        ∀ id ∉ done, current.resharding.get? id = s.resharding.get? id)
    ⟨rfl, by simp, fun _ _ => rfl⟩ ?_
  rintro past id rest current next - ⟨hcurrent, hdone, hother⟩ hstep
  obtain ⟨costs, hcosts, hnext⟩ := hstep.bind_ok
  cases hnext.eq_of_pure_ok
  -- the costs do not depend on what is set already
  rw [hcurrent] at hcosts
  refine ⟨by rw [hcurrent]; rfl, fun id' hid' => ?_, fun id' hid' => ?_⟩
  · by_cases hid : id = id'
    · subst hid
      exact ⟨costs, hcosts, by rw [Strategy.withResharding, SortedMap.get?_insert, if_pos rfl]⟩
    · obtain ⟨costs', hcosts', hget⟩ := hdone id' (by simpa [Ne.symm hid] using hid')
      refine ⟨costs', hcosts', ?_⟩
      rw [Strategy.withResharding, SortedMap.get?_insert, if_neg hid, hget]
  · rw [List.mem_append, List.mem_singleton, not_or] at hid'
    rw [Strategy.withResharding, SortedMap.get?_insert, if_neg (Ne.symm hid'.2),
      hother id' hid'.1]

/-! ### Oracles that can be used -/

/-- **A session that gives usable answers**: every answer of the oracle is a cost that can be used, and
neither the oracle nor the log fails but by overflow. -/
structure Session.IsUsable (session : Session m) : Prop where
  isUsable : ∀ {t source target tr}, CanEnd (session.ask t source target) (.ok tr) →
    tr.cost.isUsable = true
  ask_overflow : ∀ {t source target e}, CanEnd (session.ask t source target) (.error e) →
    e.IsOverflow
  note_overflow : ∀ {event e}, CanEnd (session.note event) (.error e) → e.IsOverflow

theorem Session.IsUsable.addTransition_overflow (h : session.IsUsable) {source : Layout}
    {cost : StepCost} {demand : TensorType × Layout} {e : Failure Refusal}
    (hend : CanEnd (addTransition session site source cost demand) (.error e)) : e.IsOverflow := by
  rcases hend.bind_error with hask | ⟨tr, htr, hend⟩
  · exact h.ask_overflow hask
  · rw [if_pos (h.isUsable htr)] at hend
    exact absurd hend Runs.not_canEnd_pure_error

theorem exists_typedOperands : ∀ {operands : List (Operand × Layout)},
    (∀ e ∈ operands, e.1.tensor.isSome = true) → ∃ demands, site.typedOperands operands = .ok demands
  | [], _ => ⟨[], rfl⟩
  | e :: operands, h => by
    obtain ⟨he, hoperands⟩ := List.forall_mem_cons.mp h
    obtain ⟨t, ht⟩ := Option.isSome_iff_exists.mp he
    obtain ⟨demands, hdemands⟩ := exists_typedOperands hoperands
    refine ⟨(t, e.2) :: demands, ?_⟩
    rw [Site.typedOperands] at hdemands ⊢
    rw [List.mapM_cons, hdemands, ht]
    rfl

theorem exists_demands {previous : Node} {s : Strategy} {id : Nat} (hne : s.argumentsFrom id ≠ [])
    (h : ∀ e ∈ s.argumentsFrom id, e.1.tensor.isSome = true) :
    ∃ demands, site.demands previous id s = .ok demands := by
  cases hargs : s.argumentsFrom id with
  | nil => exact absurd hargs hne
  | cons e rest =>
    rw [hargs] at h
    obtain ⟨demands, hdemands⟩ := exists_typedOperands h
    obtain ⟨d, rest, -, -, rfl⟩ :=
      List.forall₂_cons_left_iff.mp (typedOperands_eq_ok_iff.mp hdemands)
    refine ⟨d :: rest, ?_⟩
    rw [Site.demands, hargs, hdemands]
    rfl

/-- **Pricing a predecessor that is there fails only at an answer**: if it is in the graph and has strategies with
results, and feeds operands that are tensors, what fails is the transition of one of them. -/
theorem reshardingCosts_error [LawfulMonad m] {s : Strategy} {id : Nat} {candidates : Candidates}
    {previous : Node} (hnode : site.graph.node? id = some previous)
    (hpublished : published.get? id = some candidates)
    (hresults : ∀ c ∈ candidates.strategies, c.result?.isSome = true)
    (hne : s.argumentsFrom id ≠ []) (htyped : ∀ e ∈ s.argumentsFrom id, e.1.tensor.isSome = true)
    {e : Failure Refusal} (hend : CanEnd (reshardingCosts session site published s id) (.error e)) :
    ∃ c ∈ candidates.strategies, ∃ result, c.result? = some result ∧ ∃ x ∈ s.argumentsFrom id, ∃ t cost,
      x.1.tensor = some t ∧ CanEnd (addTransition session site result.2 cost (t, x.2)) (.error e) := by
  have hprevious : site.predecessor id = .ok previous := by rw [Site.predecessor, hnode]
  have hcandidates : site.candidatesOf published previous id = .ok candidates := by
    rw [Site.candidatesOf, hpublished]
  obtain ⟨demands, hdemands⟩ : ∃ demands, site.demands previous id s = .ok demands :=
    exists_demands hne htyped
  have hend := ((hend.of_raise_bind hprevious).of_raise_bind hcandidates).of_raise_bind hdemands
  obtain ⟨candidate, hcandidate, hend⟩ := hend.mapM_error
  obtain ⟨result, hresult⟩ := Option.isSome_iff_exists.mp (hresults candidate hcandidate)
  have hsupply : site.supply previous candidate = .ok result.2 := by rw [Site.supply, hresult]
  obtain ⟨_, demand, _, cost, hsplit, -, hstep⟩ :=
    (hend.of_raise_bind hsupply).foldlM_error (fun _ _ => True) trivial fun _ _ _ => trivial
  have hall := typedOperands_eq_ok_iff.mp (typedOperands_of_demands hdemands).2
  obtain ⟨x, hx, t, ht, rfl⟩ := (mem_of_forall₂ hall).1 demand (by simp [hsplit])
  exact ⟨candidate, hcandidate, result, hresult, x, hx, t, cost, ht, hstep⟩

/-- **Pricing a predecessor fails by overflow**, or else for one of four reasons: it is not in the graph,
it has no strategies yet, it feeds no operand or one that is no tensor, or one of its strategies has no
result. -/
theorem Session.IsUsable.reshardingCosts_overflow [LawfulMonad m] (h : session.IsUsable)
    {s : Strategy} {id : Nat} {candidates : Candidates} {previous : Node}
    (hnode : site.graph.node? id = some previous) (hpublished : published.get? id = some candidates)
    (hresults : ∀ c ∈ candidates.strategies, c.result?.isSome = true)
    (hne : s.argumentsFrom id ≠ []) (htyped : ∀ e ∈ s.argumentsFrom id, e.1.tensor.isSome = true)
    {e : Failure Refusal} (hend : CanEnd (reshardingCosts session site published s id) (.error e)) :
    e.IsOverflow := by
  obtain ⟨_, -, _, -, _, -, _, _, -, hstep⟩ :=
    reshardingCosts_error hnode hpublished hresults hne htyped hend
  exact h.addTransition_overflow hstep

theorem reshard_error {s : Strategy} {e : Failure Refusal}
    (h : CanEnd (reshard session site published s) (.error e)) :
    ∃ id ∈ site.node.predecessors,
      CanEnd (reshardingCosts session site published s id) (.error e) := by
  obtain ⟨past, id, rest, current, hlist, hcurrent, hend⟩ := h.foldlM_error
    (fun _ current => current = { s with resharding := current.resharding }) rfl
    fun {past id rest current next} _ hcurrent hstep => by
      obtain ⟨costs, -, hnext⟩ := hstep.bind_ok
      cases hnext.eq_of_pure_ok
      rw [hcurrent]
      rfl
  refine ⟨id, by simp [hlist], ?_⟩
  rcases hend.bind_error with hend | ⟨costs, -, hend⟩
  · rw [hcurrent] at hend
    exact hend
  · exact absurd hend Runs.not_canEnd_pure_error

end Running

end ShardPlan
