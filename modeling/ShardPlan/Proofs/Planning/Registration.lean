import ShardPlan.Proofs.Layout.Within
import ShardPlan.Proofs.Planning.Resharding

/-! # What a registration does

A handler offers candidates: what its generators list, refined, in order. A registration sorts them into
those that fit, which are committed and, if asked for, priced, and the refusals of the others
(`register_ok`). It fails only if a predecessor has no strategies, the handler fails, an event cannot be told,
or a strategy that fits cannot be priced (`register_error`). Of the strategies of other nodes it reads those
of the predecessors alone (`register_congr`). -/

namespace ShardPlan

namespace Handler

/-- The refined strategies of a generator. -/
def refined (handler : Handler) (g : Generator) : Planned (List Strategy) := do
  let generated ← Outcome.ofChecked g.generate
  let strategies ← generated.mapM handler.refine
  return strategies.flatten

/-- **The candidates of a handler**: the refined strategies of all its generators, in order. -/
def candidates (handler : Handler) : Planned (List Strategy) := do
  let generators ← handler.generators
  let strategies ← generators.mapM handler.refined
  return strategies.flatten

/-- The handler does not get the strategies of a generator, or cannot refine one of them. -/
def FailsOn (handler : Handler) (g : Generator) (e : Failure Refusal) : Prop :=
  (Outcome.ofChecked g.generate : Planned (List Strategy)) = .error e ∨
    ∃ strategies, g.generate = .ok strategies ∧ ∃ s ∈ strategies, handler.refine s = .error e

/-- **The handler fails**: it has no generators, or fails on one of them. -/
def Fails (handler : Handler) (e : Failure Refusal) : Prop :=
  handler.generators = .error e ∨
    ∃ generators, handler.generators = .ok generators ∧ ∃ g ∈ generators, handler.FailsOn g e

end Handler

/-- Why a strategy is left out, if it is. -/
def Site.refusal? (site : Site) (s : Strategy) : Option Refusal :=
  match site.misfit? s with
  | .ok misfit => misfit
  | .error _ => none

/-- **The events that a registration tells**: that strategies were listed, why a candidate is left out, and
how many are committed, if any. -/
inductive Site.Tells (site : Site) (handler : Handler) : Event → Prop
  | generated (name : String) (count : Nat) : Tells site handler (.generated name count site.node.label)
  | rejecting {strategies : List Strategy} {s : Strategy} {refusal : Refusal}
      (hcandidates : handler.candidates = .ok strategies) (hs : s ∈ strategies)
      (hmisfit : site.misfit? s = .ok (some refusal)) : Tells site handler (.rejecting s.name refusal)
  | deadEnd (rejected : Nat) : Tells site handler (.deadEnd site.node.label rejected)
  | committed (count : Nat) : Tells site handler (.committed count site.node.label)

section Running

variable {m : Type → Type} [Monad m] [MonadExceptOf (Failure Refusal) m] [Runs m]
  {session : Session m} {site : Site} {published : Published} {handler : Handler} {pricing : Bool}

/-! ### Candidates -/

theorem generateAll_ok [LawfulMonad m] : ∀ {generators : List Generator} {strategies : List Strategy},
    CanEnd (generateAll session site handler generators) (.ok strategies) →
      ∃ refined, generators.mapM handler.refined = .ok refined ∧ strategies = refined.flatten
  | [], strategies, h => ⟨[], rfl, h.eq_of_pure_ok⟩
  | g :: generators, strategies, h => by
    obtain ⟨generated, hgenerated, h⟩ := h.bind_ok
    obtain ⟨-, -, h⟩ := h.bind_ok
    obtain ⟨refined, hrefined, h⟩ := h.bind_ok
    obtain ⟨others, hothers, h⟩ := h.bind_ok
    obtain ⟨rest, hrest, rfl⟩ := generateAll_ok hothers
    have hfirst : handler.refined g = .ok refined.flatten := by
      have hmap := mapM_eq_ok_iff.mpr (hrefined.mapM_ok.imp fun _ _ hs => hs.of_raise)
      rw [Handler.refined, hgenerated.of_raiseChecked]
      exact bind_eq_ok_iff.mpr ⟨generated, rfl, bind_eq_ok_iff.mpr ⟨refined, hmap, rfl⟩⟩
    refine ⟨refined.flatten :: rest, ?_, h.eq_of_pure_ok⟩
    rw [List.mapM_cons, hfirst, hrest]
    rfl

theorem candidates_of_generateAll [LawfulMonad m] {generators : List Generator}
    {strategies : List Strategy} (hgen : handler.generators = .ok generators)
    (h : CanEnd (generateAll session site handler generators) (.ok strategies)) :
    handler.candidates = .ok strategies := by
  obtain ⟨refined, hrefined, rfl⟩ := generateAll_ok h
  exact bind_eq_ok_iff.mpr ⟨generators, hgen, bind_eq_ok_iff.mpr ⟨refined, hrefined, rfl⟩⟩

theorem generateAll_error [LawfulMonad m] {e : Failure Refusal} : ∀ {generators : List Generator},
    CanEnd (generateAll session site handler generators) (.error e) →
      (∃ event, site.Tells handler event ∧ CanEnd (session.note event) (.error e)) ∨
        ∃ g ∈ generators, handler.FailsOn g e
  | [], h => absurd h Runs.not_canEnd_pure_error
  | g :: generators, h => by
    rcases h.bind_error with h | ⟨strategies, hstrategies, h⟩
    · exact .inr ⟨g, by simp, .inl h.of_raise⟩
    rcases h.bind_error with h | ⟨-, -, h⟩
    · exact .inl ⟨_, .generated g.name strategies.length, h⟩
    rcases h.bind_error with h | ⟨_, -, h⟩
    · obtain ⟨s, hs, h⟩ := h.mapM_error
      exact .inr ⟨g, by simp, .inr ⟨strategies, hstrategies.of_raiseChecked, s, hs, h.of_raise⟩⟩
    rcases h.bind_error with h | ⟨_, -, h⟩
    · refine (generateAll_error h).imp_right ?_
      rintro ⟨g', hg', hfail⟩
      exact ⟨g', List.mem_cons_of_mem g hg', hfail⟩
    · exact absurd h Runs.not_canEnd_pure_error

/-! ### Judging the candidates -/

/-- The strategy can be priced as another one, or is that one if strategies are not priced. -/
def PricedAs (session : Session m) (site : Site) (published : Published) (pricing : Bool)
    (s priced : Strategy) : Prop :=
  CanEnd (if pricing then reshard session site published s else pure s) (.ok priced)

theorem PricedAs.eq_with_resharding {s priced : Strategy}
    (h : PricedAs session site published pricing s priced) :
    priced = { s with resharding := priced.resharding } := by
  cases pricing with
  | true => exact (reshard_ok h).1
  | false =>
    have hsame : priced = s := Runs.CanEnd.eq_of_pure_ok h
    rw [hsame]

/-- **What becomes of candidates**: one that fits is committed as it is priced, of another one the refusal
is kept, both in order. -/
inductive Judged (session : Session m) (site : Site) (published : Published) (pricing : Bool) :
    List Strategy → List Strategy → List Refusal → Prop
  | nil : Judged session site published pricing [] [] []
  | commit {s priced : Strategy} {rest committed : List Strategy} {rejected : List Refusal}
      (hfit : site.misfit? s = .ok none) (hpriced : PricedAs session site published pricing s priced)
      (hrest : Judged session site published pricing rest committed rejected) :
      Judged session site published pricing (s :: rest) (priced :: committed) rejected
  | reject {s : Strategy} {rest committed : List Strategy} {refusal : Refusal}
      {rejected : List Refusal} (hmisfit : site.misfit? s = .ok (some refusal))
      (hrest : Judged session site published pricing rest committed rejected) :
      Judged session site published pricing (s :: rest) committed (refusal :: rejected)

theorem judge_ok : ∀ {strategies : List Strategy} {result : List Strategy × List Refusal},
    CanEnd (judge session site published pricing strategies) (.ok result) →
      Judged session site published pricing strategies result.1 result.2
  | [], result, h => by
    rw [h.eq_of_pure_ok]
    exact .nil
  | s :: rest, result, h => by
    obtain ⟨misfit, hmisfit, h⟩ := h.bind_ok
    cases misfit with
    | some refusal =>
      obtain ⟨-, -, h⟩ := h.bind_ok
      obtain ⟨others, hothers, h⟩ := h.bind_ok
      cases h.eq_of_pure_ok
      exact .reject hmisfit.of_raiseChecked (judge_ok hothers)
    | none =>
      obtain ⟨priced, hpriced, h⟩ : ∃ priced, PricedAs session site published pricing s priced ∧
          CanEnd (judge session site published pricing rest >>= fun others =>
            pure (priced :: others.1, others.2)) (.ok result) := by
        cases pricing with
        | true => exact h.bind_ok
        | false => exact h.bind_ok
      obtain ⟨others, hothers, h⟩ := h.bind_ok
      cases h.eq_of_pure_ok
      exact .commit hmisfit.of_raiseChecked hpriced (judge_ok hothers)

theorem findMisfit_hasValue (site : Site) : ∀ layouts : List (Operand × Layout),
    HasValue (site.findMisfit layouts)
  | [] => .ok none
  | (o, l) :: layouts => by
    unfold Site.findMisfit
    split
    · exact findMisfit_hasValue site layouts
    · rename_i t _
      refine (l.violation?_hasValue t site.mesh).bind fun violation _ => ?_
      split
      · exact .ok _
      · exact findMisfit_hasValue site layouts

theorem misfit?_hasValue (site : Site) (s : Strategy) : HasValue (site.misfit? s) :=
  findMisfit_hasValue site s.layouts

theorem refusal?_eq_some_iff {s : Strategy} {refusal : Refusal} :
    site.refusal? s = some refusal ↔ site.misfit? s = .ok (some refusal) := by
  obtain ⟨misfit, hmisfit⟩ := misfit?_hasValue site s
  rw [Site.refusal?, hmisfit, Except.ok.injEq]

theorem refusal?_eq_none_iff {s : Strategy} : site.refusal? s = none ↔ site.misfit? s = .ok none := by
  obtain ⟨misfit, hmisfit⟩ := misfit?_hasValue site s
  rw [Site.refusal?, hmisfit, Except.ok.injEq]

theorem judge_error {e : Failure Refusal} : ∀ {strategies : List Strategy},
    CanEnd (judge session site published pricing strategies) (.error e) →
      (∃ s ∈ strategies, ∃ refusal, site.misfit? s = .ok (some refusal) ∧
        CanEnd (session.note (.rejecting s.name refusal)) (.error e)) ∨
      pricing = true ∧ ∃ s ∈ strategies, site.misfit? s = .ok none ∧
        CanEnd (reshard session site published s) (.error e)
  | [], h => absurd h Runs.not_canEnd_pure_error
  | s :: rest, h => by
    have hlater : CanEnd (judge session site published pricing rest) (.error e) →
        (∃ s' ∈ s :: rest, ∃ refusal, site.misfit? s' = .ok (some refusal) ∧
          CanEnd (session.note (.rejecting s'.name refusal)) (.error e)) ∨
        pricing = true ∧ ∃ s' ∈ s :: rest, site.misfit? s' = .ok none ∧
          CanEnd (reshard session site published s') (.error e) := by
      intro h
      rcases judge_error h with ⟨s', hs', hnote⟩ | ⟨hpricing, s', hs', hfail⟩
      · exact .inl ⟨s', List.mem_cons_of_mem s hs', hnote⟩
      · exact .inr ⟨hpricing, s', List.mem_cons_of_mem s hs', hfail⟩
    obtain ⟨misfit, hmisfit⟩ := misfit?_hasValue site s
    have hraised : (Outcome.ofChecked (site.misfit? s) : Planned _) = .ok misfit := by rw [hmisfit]; rfl
    have h := h.of_raise_bind hraised
    cases misfit with
    | some refusal =>
      rcases h.bind_error with h | ⟨-, -, h⟩
      · exact .inl ⟨s, by simp, refusal, hmisfit, h⟩
      rcases h.bind_error with h | ⟨_, -, h⟩
      · exact hlater h
      · exact absurd h Runs.not_canEnd_pure_error
    | none =>
      obtain h | ⟨priced, h⟩ : (pricing = true ∧
            CanEnd (reshard session site published s) (.error e)) ∨
          ∃ priced, CanEnd (judge session site published pricing rest >>= fun others =>
            pure (priced :: others.1, others.2)) (.error e) := by
        cases pricing with
        | true => exact h.bind_error.imp (⟨rfl, ·⟩) fun ⟨priced, _, h⟩ => ⟨priced, h⟩
        | false =>
          rcases h.bind_error with h | ⟨priced, -, h⟩
          · exact absurd h Runs.not_canEnd_pure_error
          · exact .inr ⟨priced, h⟩
      · exact .inr ⟨h.1, s, by simp, hmisfit, h.2⟩
      rcases h.bind_error with h | ⟨_, -, h⟩
      · exact hlater h
      · exact absurd h Runs.not_canEnd_pure_error

namespace Judged

variable {strategies committed : List Strategy} {rejected : List Refusal}

/-- **Judging sorts the candidates**: those that fit are committed as they are priced, and the refusals of the
others are kept. -/
theorem sorts (h : Judged session site published pricing strategies committed rejected) :
    List.Forall₂ (PricedAs session site published pricing)
        (strategies.filter fun s => (site.refusal? s).isNone) committed ∧
      rejected = strategies.filterMap site.refusal? := by
  induction h with
  | nil => exact ⟨.nil, rfl⟩
  | @commit s priced rest committed rejected hfit hpriced hrest ih =>
    obtain ⟨hcommitted, rfl⟩ := ih
    have hnone : site.refusal? s = none := refusal?_eq_none_iff.mpr hfit
    rw [List.filter_cons_of_pos (by rw [hnone]; rfl), List.filterMap_cons_none hnone]
    exact ⟨.cons hpriced hcommitted, rfl⟩
  | @reject s rest committed refusal rejected hmisfit hrest ih =>
    obtain ⟨hcommitted, rfl⟩ := ih
    have hsome : site.refusal? s = some refusal := refusal?_eq_some_iff.mpr hmisfit
    rw [List.filter_cons_of_neg (by rw [hsome]; exact Bool.false_ne_true),
      List.filterMap_cons_some hsome]
    exact ⟨hcommitted, rfl⟩

omit [Monad m] [MonadExceptOf (Failure Refusal) m] [Runs m] in
theorem mem_filter_iff {s : Strategy} :
    (s ∈ strategies.filter fun s => (site.refusal? s).isNone) ↔
      s ∈ strategies ∧ site.misfit? s = .ok none := by
  rw [List.mem_filter, Option.isNone_iff_eq_none, refusal?_eq_none_iff]

theorem exists_candidate (h : Judged session site published pricing strategies committed rejected) :
    ∀ priced ∈ committed, ∃ s ∈ strategies, site.misfit? s = .ok none ∧
      PricedAs session site published pricing s priced := by
  intro priced hmem
  obtain ⟨s, hs, hpriced⟩ := (mem_of_forall₂ h.sorts.1).1 priced hmem
  obtain ⟨hs, hfit⟩ := mem_filter_iff.mp hs
  exact ⟨s, hs, hfit, hpriced⟩

theorem exists_committed (h : Judged session site published pricing strategies committed rejected)
    {s : Strategy} (hs : s ∈ strategies) (hfit : site.misfit? s = .ok none) :
    ∃ priced ∈ committed, PricedAs session site published pricing s priced :=
  (mem_of_forall₂ h.sorts.1).2 s (mem_filter_iff.mpr ⟨hs, hfit⟩)

theorem eq_filter (h : Judged session site published false strategies committed rejected) :
    committed = strategies.filter (fun s => (site.refusal? s).isNone) ∧
      rejected = strategies.filterMap site.refusal? := by
  obtain ⟨hpriced, hrejected⟩ := h.sorts
  have hsame : List.Forall₂ Eq (strategies.filter fun s => (site.refusal? s).isNone) committed :=
    hpriced.imp fun s priced hs => (Runs.CanEnd.eq_of_pure_ok hs).symm
  rw [List.forall₂_eq_eq_eq] at hsame
  exact ⟨hsame.symm, hrejected⟩

end Judged

/-! ### Registrations -/

/-- A registration from the point on where every predecessor is known to have strategies. -/
def registerChecked (session : Session m) (site : Site) (published : Published) (handler : Handler)
    (pricing : Bool) : m Registration := do
  let generators ← raise handler.generators
  let generated ← generateAll session site handler generators
  let (committed, rejected) ← judge session site published pricing generated
  let registration : Registration := ⟨⟨site.node.id, committed⟩, rejected⟩
  session.note <|
    if registration.isDeadEnd then .deadEnd site.node.label rejected.length
    else .committed committed.length site.node.label
  pure registration

omit [Runs m] in
theorem register_true : register session site published handler true =
    raise (site.checkPredecessors published site.node.predecessors) >>= fun _ =>
      registerChecked session site published handler true := rfl

theorem registerChecked_ok [LawfulMonad m] {r : Registration}
    (h : CanEnd (registerChecked session site published handler pricing) (.ok r)) :
    r.candidates.node = site.node.id ∧ ∃ strategies, handler.candidates = .ok strategies ∧
      Judged session site published pricing strategies r.candidates.strategies r.rejected := by
  obtain ⟨generators, hgenerators, h⟩ := h.bind_ok
  obtain ⟨strategies, hstrategies, h⟩ := h.bind_ok
  obtain ⟨result, hresult, h⟩ := h.bind_ok
  obtain ⟨-, -, h⟩ := h.bind_ok
  cases h.eq_of_pure_ok
  exact ⟨rfl, strategies, candidates_of_generateAll hgenerators.of_raise hstrategies, judge_ok hresult⟩

/-- **A registration that succeeds** has judged the candidates of the handler. -/
theorem register_ok [LawfulMonad m] {r : Registration}
    (h : CanEnd (register session site published handler pricing) (.ok r)) :
    r.candidates.node = site.node.id ∧ ∃ strategies, handler.candidates = .ok strategies ∧
      Judged session site published pricing strategies r.candidates.strategies r.rejected := by
  cases pricing with
  | false => exact registerChecked_ok h
  | true =>
    rw [register_true] at h
    obtain ⟨-, -, h⟩ := h.bind_ok
    exact registerChecked_ok h

/-- **A registration without prices** commits the candidates that fit, in order, and keeps the refusals of the
others. -/
theorem register_unpriced [LawfulMonad m] {strategies : List Strategy}
    (hcandidates : handler.candidates = .ok strategies) {r : Registration}
    (h : CanEnd (register session site published handler false) (.ok r)) :
    r = ⟨⟨site.node.id, strategies.filter fun s => (site.refusal? s).isNone⟩,
      strategies.filterMap site.refusal?⟩ := by
  obtain ⟨hnode, strategies', hcandidates', hjudged⟩ := register_ok h
  cases hcandidates.symm.trans hcandidates'
  obtain ⟨hcommitted, hrejected⟩ := hjudged.eq_filter
  obtain ⟨⟨node, committed⟩, rejected⟩ := r
  cases hnode
  cases hcommitted
  cases hrejected
  rfl

theorem registerChecked_error [LawfulMonad m] {e : Failure Refusal}
    (h : CanEnd (registerChecked session site published handler pricing) (.error e)) :
    handler.Fails e ∨ (∃ event, site.Tells handler event ∧ CanEnd (session.note event) (.error e)) ∨
      pricing = true ∧ ∃ strategies s, handler.candidates = .ok strategies ∧ s ∈ strategies ∧
        site.misfit? s = .ok none ∧ CanEnd (reshard session site published s) (.error e) := by
  rcases h.bind_error with h | ⟨generators, hgenerators, h⟩
  · exact .inl (.inl h.of_raise)
  have hgens := hgenerators.of_raise
  rcases h.bind_error with h | ⟨strategies, hstrategies, h⟩
  · rcases generateAll_error h with htold | hfails
    · exact .inr (.inl htold)
    · exact .inl (.inr ⟨generators, hgens, hfails⟩)
  have hcandidates := candidates_of_generateAll hgens hstrategies
  rcases h.bind_error with h | ⟨result, -, h⟩
  · rcases judge_error h with ⟨s, hs, refusal, hmisfit, hnote⟩ | ⟨hpricing, s, hs, hfail⟩
    · exact .inr (.inl ⟨_, .rejecting hcandidates hs hmisfit, hnote⟩)
    · exact .inr (.inr ⟨hpricing, strategies, s, hcandidates, hs, hfail⟩)
  rcases h.bind_error with h | ⟨_, -, h⟩
  · refine .inr (.inl ⟨_, ?_, h⟩)
    split
    · exact .deadEnd result.2.length
    · exact .committed result.1.length
  · exact absurd h Runs.not_canEnd_pure_error

/-- **A registration fails only** if a predecessor has no strategies, the handler fails, an event cannot be
told, or a candidate that fits cannot be priced. -/
theorem register_error [LawfulMonad m] {e : Failure Refusal}
    (h : CanEnd (register session site published handler pricing) (.error e)) :
    (pricing = true ∧ site.checkPredecessors published site.node.predecessors = .error e) ∨
    handler.Fails e ∨ (∃ event, site.Tells handler event ∧ CanEnd (session.note event) (.error e)) ∨
      pricing = true ∧ ∃ strategies s, handler.candidates = .ok strategies ∧ s ∈ strategies ∧
        site.misfit? s = .ok none ∧ CanEnd (reshard session site published s) (.error e) := by
  cases pricing with
  | false => exact .inr (registerChecked_error h)
  | true =>
    rw [register_true] at h
    rcases h.bind_error with h | ⟨-, -, h⟩
    · exact .inl ⟨rfl, h.of_raise⟩
    · exact .inr (registerChecked_error h)

/-! ### What a registration reads -/

variable {published' : Published}

omit [Monad m] [MonadExceptOf (Failure Refusal) m] [Runs m] in
theorem checkPredecessors_congr : ∀ {ids : List Nat},
    (∀ id ∈ ids, published.get? id = published'.get? id) →
      site.checkPredecessors published ids = site.checkPredecessors published' ids
  | [], _ => rfl
  | id :: ids, h => by
    obtain ⟨hid, hids⟩ := List.forall_mem_cons.mp h
    rw [Site.checkPredecessors, Site.checkPredecessors, SortedMap.contains, SortedMap.contains, hid,
      checkPredecessors_congr hids]

theorem reshard_congr {s : Strategy}
    (h : ∀ id ∈ site.node.predecessors, published.get? id = published'.get? id) :
    reshard session site published s = reshard session site published' s := by
  refine Runs.foldlM_congr (fun _ _ => True) [] trivial fun {past id rest s} hsplit _ => ?_
  have hid : id ∈ site.node.predecessors := List.mem_iff_append.mpr ⟨past, rest, hsplit⟩
  unfold reshardingCosts Site.candidatesOf
  rw [h id hid]
  exact ⟨rfl, fun _ => trivial⟩

theorem judge_congr (h : ∀ id ∈ site.node.predecessors, published.get? id = published'.get? id) :
    ∀ {strategies : List Strategy}, judge session site published pricing strategies =
      judge session site published' pricing strategies
  | [] => rfl
  | s :: rest => by
    rw [judge, judge]
    simp only [reshard_congr h, judge_congr h]

/-- **A registration reads the strategies of the predecessors** and of no other node. -/
theorem register_congr (h : ∀ id ∈ site.node.predecessors, published.get? id = published'.get? id) :
    register session site published handler pricing =
      register session site published' handler pricing := by
  have hchecked : registerChecked session site published handler pricing =
      registerChecked session site published' handler pricing := by
    unfold registerChecked
    simp only [judge_congr h]
  cases pricing with
  | false => exact hchecked
  | true => rw [register_true, register_true, checkPredecessors_congr h, hchecked]

end Running

end ShardPlan
