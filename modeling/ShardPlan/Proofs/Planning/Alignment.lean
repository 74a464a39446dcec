import ShardPlan.Proofs.Planning.Registration
import ShardPlan.Proofs.Reshard.Validity

/-! # Resharding costs are aligned with the predecessors

A committed strategy has one list of costs for each predecessor of its node and no other, and such a list
has one cost for each strategy of the predecessor, in their order (`resharding_aligns`). This is how the
costs of a node and the strategies of its predecessors refer to each other. -/

namespace ShardPlan

section Running

variable {m : Type → Type} [Monad m] [MonadExceptOf (Failure Refusal) m] [Runs m]

theorem keys_of_reshard {session : Session m} {site : Site} {published : Published}
    {s priced : Strategy} (h : CanEnd (reshard session site published s) (.ok priced))
    (hs : s.resharding = .empty) (id : Nat) :
    id ∈ priced.resharding.keys ↔ id ∈ site.node.predecessors := by
  obtain ⟨-, hpriced, hother⟩ := reshard_ok h
  rw [SortedMap.mem_keys]
  constructor
  · rintro ⟨costs, hcosts⟩
    by_contra hid
    rw [hother id hid, hs] at hcosts
    exact nomatch hcosts
  · intro hid
    obtain ⟨costs, -, hcosts⟩ := hpriced id hid
    exact ⟨costs, hcosts⟩

/-- **The resharding costs of a committed strategy** are listed for exactly the arguments of its node. For
each of them there is one cost for each strategy that it published, in order: the answers of the oracle for
the operands that the argument feeds, from the layout of its result to the layouts that they shall have,
added up from zero. A handler whose candidates come without such costs is assumed, and nothing else. -/
theorem resharding_aligns [LawfulMonad m] (session : Session m) (site : Site) (published : Published)
    (handler : Handler)
    (hfresh : ∀ strategies, handler.candidates = .ok strategies →
      ∀ s ∈ strategies, s.resharding = .empty)
    {r : Registration} (h : CanEnd (register session site published handler true) (.ok r)) :
    ∀ s ∈ r.candidates.strategies,
      (∀ id, id ∈ s.resharding.keys ↔ id ∈ site.node.args) ∧
        ∀ id ∈ site.node.args, ∃ candidates costs, published.get? id = some candidates ∧
          s.resharding.get? id = some costs ∧
            List.Forall₂ (s.ComesAt session id) candidates.strategies costs := by
  intro priced hmem
  obtain ⟨-, strategies, hstrategies, hjudged⟩ := register_ok h
  obtain ⟨s, hs, -, hpriced⟩ := hjudged.exists_candidate priced hmem
  have hargs : ∀ id, id ∈ site.node.predecessors ↔ id ∈ site.node.args :=
    fun id => List.mem_eraseDups
  refine ⟨fun id => ?_, fun id hid => ?_⟩
  · rw [keys_of_reshard hpriced (hfresh strategies hstrategies s hs), hargs]
  · obtain ⟨hsame, hcosts, -⟩ := reshard_ok hpriced
    obtain ⟨costs, hend, hget⟩ := hcosts id ((hargs id).mpr hid)
    obtain ⟨-, candidates, hpublished, hall⟩ := reshardingCosts_ok hend
    -- pricing does not change the operands, so the costs are those of the priced strategy
    rw [hsame]
    exact ⟨candidates, costs, hpublished, hget, hall⟩

end Running

/-- Two inputs, and a function that uses the first of them twice. -/
def Graph.repeating : Graph where
  nodes := [⟨0, "x", .input, [], [2], some ⟨[8, 4], .f32⟩⟩,
    ⟨1, "y", .input, [], [2], some ⟨[4], .f32⟩⟩,
    ⟨2, "f", .function "f", [0, 1, 0], [], some ⟨[8, 4], .f32⟩⟩]
  owner := none
  map_id_nodes := rfl
  args_lt := by decide

/-- The function of that graph, on four devices. -/
def Site.repeating : Site :=
  ⟨.repeating, ⟨2, "f", .function "f", [0, 1, 0], [], some ⟨[8, 4], .f32⟩⟩, .square⟩

/-- The strategies of its inputs: two of the first and none of the second. -/
def Published.ofRepeating : Published :=
  let x : Operand := ⟨"x", .result, some ⟨[8, 4], .f32⟩, some 0⟩
  .ofList [(0, ⟨0, [{ name := "R", layouts := [(x, .replicated)] },
    { name := "S0", layouts := [(x, .ofPairs [(0, [0])])] }]⟩), (1, ⟨1, []⟩)]

/-- A strategy in which the first input is used split once and replicated once. -/
def Strategy.repeating : Strategy where
  name := "S0 = S0 x R x R"
  layouts := [(⟨"x", .argument, some ⟨[8, 4], .f32⟩, some 0⟩, .ofPairs [(0, [0])]),
    (⟨"y", .argument, some ⟨[4], .f32⟩, some 1⟩, .replicated),
    (⟨"x", .argument, some ⟨[8, 4], .f32⟩, some 0⟩, .replicated),
    (⟨"f", .result, some ⟨[8, 4], .f32⟩, some 2⟩, .ofPairs [(0, [0])])]

/-- The handler that knows a single strategy. -/
def Handler.single (s : Strategy) : Handler where
  operands := .ok .empty
  generators := .ok [⟨"single", .ok [s]⟩]

/-- A node that uses one predecessor twice and another one that has no strategy. -/
theorem resharding_aligns_of_repeating :
    (∀ strategies, (Handler.single .repeating).candidates = .ok strategies →
      ∀ s ∈ strategies, s.resharding = .empty) ∧
    ∃ r, register (.silent (Oracle.constant (.ofPasses 1.0 2.0))) .repeating .ofRepeating
        (.single .repeating) true = (.ok r : Planned Registration) ∧
      r.candidates.strategies.length = 1 ∧ ∀ s ∈ r.candidates.strategies,
        (∀ id, id ∈ s.resharding.keys ↔ id ∈ Site.repeating.node.args) ∧
          ∀ id ∈ Site.repeating.node.args, ∃ candidates costs,
            Published.ofRepeating.get? id = some candidates ∧ s.resharding.get? id = some costs ∧
              List.Forall₂ (s.ComesAt (m := Planned)
                (.silent (Oracle.constant (.ofPasses 1.0 2.0))) id) candidates.strategies costs := by
  have hfresh : ∀ strategies, (Handler.single .repeating).candidates = .ok strategies →
      ∀ s ∈ strategies, s.resharding = .empty := by
    rintro _ ⟨⟩ s hs
    rw [List.mem_singleton.mp hs]
    rfl
  refine ⟨hfresh, _, rfl, rfl, ?_⟩
  exact resharding_aligns (.silent (Oracle.constant (.ofPasses 1.0 2.0))) .repeating .ofRepeating
    (.single .repeating) hfresh rfl

end ShardPlan
