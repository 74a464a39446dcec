import ShardPlan.Proofs.Planning.Alignment
import ShardPlan.Proofs.Planning.Committed

/-! # Nothing is lost, doubled or moved

A registration goes through the candidates of its handler once: those of the first generator, then those of
the next, and for every strategy that a generator lists, what the handler makes of it. Each candidate ends up
on one of two lists, both in the order of the candidates: it is committed if all its operands fit, and else
the violation of the first that does not is kept (`register_keeps_order`). -/

namespace ShardPlan

/-! ### Candidates in order -/

namespace Handler

variable {handler : Handler}

/-- What the handler makes of a generator: for each strategy, in order, the ones that it becomes. -/
def Makes (handler : Handler) (g : Generator) (batches : List (List Strategy)) : Prop :=
  ∃ generated, g.generate = .ok generated ∧
    List.Forall₂ (fun s batch => handler.refine s = .ok batch) generated batches

/-- **The candidates of a handler** follow the order of the generators, then that of the strategies of each,
then that of the ones that a strategy becomes. -/
theorem exists_makes {strategies : List Strategy} (h : handler.candidates = .ok strategies) :
    ∃ generators made, handler.generators = .ok generators ∧
      List.Forall₂ handler.Makes generators made ∧ strategies = made.flatten.flatten := by
  obtain ⟨generators, hgenerators, h⟩ := bind_eq_ok_iff.mp h
  obtain ⟨lists, hlists, h⟩ := bind_eq_ok_iff.mp h
  cases h
  have hmade : List.Forall₂ (fun g list => ∃ batches, handler.Makes g batches ∧ list = batches.flatten)
      generators lists := by
    refine (mapM_eq_ok_iff.mp hlists).imp fun g list hlist => ?_
    obtain ⟨generated, batches, hgenerated, hbatches, rfl⟩ := refined_eq_ok_iff.mp hlist
    exact ⟨batches, ⟨generated, hgenerated, mapM_eq_ok_iff.mp hbatches⟩, rfl⟩
  obtain ⟨made, hmakes, rfl⟩ := exists_map_of_forall₂ hmade
  exact ⟨generators, made, hgenerators, hmakes, List.flatten_flatten.symm⟩

end Handler

/-! ### Candidates that fit -/

namespace Site

variable {site : Site} {s : Strategy}

theorem isNone_refusal?_iff : (site.refusal? s).isNone = true ↔ site.AllFit s.layouts := by
  rw [Option.isNone_iff_eq_none, refusal?_eq_none_iff, misfit?_eq_none_iff]

instance (site : Site) (s : Strategy) : Decidable (site.AllFit s.layouts) :=
  decidable_of_iff _ isNone_refusal?_iff

theorem filter_allFit (site : Site) (strategies : List Strategy) :
    (strategies.filter fun s => site.AllFit s.layouts) =
      strategies.filter fun s => (site.refusal? s).isNone := by
  refine List.filter_congr fun s _ => ?_
  rw [Bool.eq_iff_iff, decide_eq_true_iff, isNone_refusal?_iff]

theorem forall₂_refusesFirst (site : Site) (strategies : List Strategy) :
    List.Forall₂ (fun s refusal => site.RefusesFirst s.layouts refusal)
      (strategies.filter fun s => ¬ site.AllFit s.layouts) (strategies.filterMap site.refusal?) := by
  have hrefused : (strategies.filter fun s => ¬ site.AllFit s.layouts) =
      strategies.filter fun s => (site.refusal? s).isSome := by
    refine List.filter_congr fun s _ => ?_
    rw [Bool.eq_iff_iff, decide_eq_true_iff, ← isNone_refusal?_iff, Option.isNone_iff_eq_none,
      Option.isSome_iff_ne_none]
  rw [hrefused]
  exact (forall₂_filterMap strategies).imp fun s refusal h =>
    refusesFirst_of_findMisfit (refusal?_eq_some_iff.mp h.2)

end Site

section Running

variable {m : Type → Type} [Monad m] [MonadExceptOf (Failure Refusal) m] [Runs m]

/-- **A registration neither loses nor doubles nor moves a candidate.** The candidates are taken in the order
of the generators, then in that of the strategies of a generator, then in that of the ones that a strategy
becomes. Those all of whose operands fit are committed, in this order, and nothing but the costs of coming to
them is changed; without pricing, nothing is. Of each other one a refusal is kept, in this order, of the first
operand that does not fit. -/
theorem register_keeps_order [LawfulMonad m] (session : Session m) (site : Site) (published : Published)
    (handler : Handler) (pricing : Bool) {r : Registration}
    (h : CanEnd (register session site published handler pricing) (.ok r)) :
    ∃ generators made strategies, handler.generators = .ok generators ∧
      List.Forall₂ handler.Makes generators made ∧ strategies = made.flatten.flatten ∧
      r.candidates.node = site.node.id ∧
      List.Forall₂ (fun s committed => committed = { s with resharding := committed.resharding })
        (strategies.filter fun s => site.AllFit s.layouts) r.candidates.strategies ∧
      List.Forall₂ (fun s refusal => site.RefusesFirst s.layouts refusal)
        (strategies.filter fun s => ¬ site.AllFit s.layouts) r.rejected ∧
      (pricing = false →
        r.candidates.strategies = strategies.filter fun s => site.AllFit s.layouts) := by
  obtain ⟨hnode, strategies, hcandidates, hjudged⟩ := register_ok h
  obtain ⟨generators, made, hgenerators, hmade, rfl⟩ := Handler.exists_makes hcandidates
  obtain ⟨hcommitted, hrejected⟩ := hjudged.sorts
  refine ⟨generators, made, _, hgenerators, hmade, rfl, hnode, ?_, ?_, fun hpricing => ?_⟩
  · rw [site.filter_allFit]
    exact hcommitted.imp fun s committed hpriced => hpriced.eq_with_resharding
  · rw [hrejected]
    exact site.forall₂_refusesFirst _
  · subst hpricing
    rw [site.filter_allFit]
    exact hjudged.eq_filter.1

end Running

/-- The strategy with another name, about two operands more: one that is no tensor and is split beyond the
mesh, and one with three entries that is split over two devices. -/
def Strategy.masked (s : Strategy) : Strategy :=
  { s with
    name := s.name ++ " masked"
    layouts := [(⟨"mask", .buffer, none, none⟩, .ofPairs [(7, [9])]),
      (⟨"bias", .parameter, some ⟨[3], .f32⟩, none⟩, .ofPairs [(0, [0])])] ++ s.layouts }

/-- A handler with two generators, which turns each strategy into three, and the second of them masked. -/
def Handler.masking : Handler where
  operands := .ok .empty
  generators := .ok [⟨"first", .ok [.repeating, { Strategy.repeating with name := "again" }]⟩,
    ⟨"none", .ok []⟩, ⟨"last", .ok [{ Strategy.repeating with name := "once more" }]⟩]
  refine s := .ok [s, s.masked, { s with name := s.name ++ " kept" }]

/-- Six of nine candidates are committed, priced, and three refusals of the same operand are kept. -/
theorem register_keeps_order_of_masking :
    ∃ r, register (.silent (Oracle.constant (.ofPasses 1.0 2.0))) .repeating .ofRepeating .masking true =
        (.ok r : Planned Registration) ∧
      r.candidates.strategies.map Strategy.name = ["S0 = S0 x R x R", "S0 = S0 x R x R kept", "again",
        "again kept", "once more", "once more kept"] ∧
      r.rejected.length = 3 ∧
      ∃ generators made, Handler.masking.generators = .ok generators ∧
        List.Forall₂ Handler.masking.Makes generators made ∧
        List.Forall₂ (fun s committed => committed = { s with resharding := committed.resharding })
          (made.flatten.flatten.filter fun s => Site.repeating.AllFit s.layouts)
          r.candidates.strategies ∧
        List.Forall₂ (fun s refusal => Site.repeating.RefusesFirst s.layouts refusal)
          (made.flatten.flatten.filter fun s => ¬ Site.repeating.AllFit s.layouts) r.rejected := by
  refine ⟨_, rfl, rfl, rfl, ?_⟩
  obtain ⟨generators, made, _, hgenerators, hmade, rfl, -, hcommitted, hrejected, -⟩ :=
    register_keeps_order (m := Planned) (.silent (Oracle.constant (.ofPasses 1.0 2.0))) .repeating
      .ofRepeating .masking true rfl
  exact ⟨generators, made, hgenerators, hmade, hcommitted, hrejected⟩

end ShardPlan
