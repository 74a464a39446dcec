import ShardPlan.Candidate.Operand
import ShardPlan.Cost

/-! # Strategies

A strategy gives every operand of a node a layout, with what that costs. A generator lists the
strategies that an operation allows on a mesh, whatever the sizes of the tensors. -/

namespace ShardPlan

/-- One choice of layouts for the operands of a node. -/
structure Strategy where
  name : String
  layouts : List (Operand × Layout)
  compute : StepCost := .zero
  /-- Cost of the communication within the operation. -/
  communication : StepCost := .zero
  /-- Bytes on each device. -/
  memory : StepCost := .zero
  /-- For each predecessor, the cost of coming from each of its strategies. -/
  resharding : SortedMap Nat (List StepCost) := .empty

namespace Strategy

instance : Inhabited Strategy := ⟨{ name := "", layouts := [] }⟩

/-- The first operand that satisfies `p`, and its layout. -/
def find? (s : Strategy) (p : Operand → Bool) : Option (Operand × Layout) :=
  s.layouts.find? fun e => p e.1

/-- The layout of an operand. -/
def layoutOf? (s : Strategy) (o : Operand) : Option Layout := (s.find? (· == o)).map Prod.snd

/-- The operand with a name. -/
def operandNamed? (s : Strategy) (name : String) : Option Operand :=
  (s.find? fun o => o.name == name).map Prod.fst

/-- The layout of the operand with a name. -/
def layoutNamed? (s : Strategy) (name : String) : Option Layout :=
  (s.find? fun o => o.name == name).map Prod.snd

/-- The result of the node and its layout. -/
def result? (s : Strategy) : Option (Operand × Layout) := s.find? fun o => o.role == .result

/-- The operands that a node holds as arguments, with their layouts. -/
def argumentsFrom (s : Strategy) (node : Nat) : List (Operand × Layout) :=
  s.layouts.filter fun e => e.1.isArgumentFrom node

/-- The list with its first entry for `old` replaced, if there is one. -/
def replaceFirst? (old new : Operand) (layout : Layout) :
    List (Operand × Layout) → Option (List (Operand × Layout))
  | [] => none
  | e :: rest =>
    if e.1 = old then some ((new, layout) :: rest)
    else (replaceFirst? old new layout rest).map (e :: ·)

/-- The strategy with an operand and its layout replaced, if it has the operand. -/
def replace? (s : Strategy) (old new : Operand) (layout : Layout) : Option Strategy :=
  (replaceFirst? old new layout s.layouts).map fun layouts => { s with layouts }

/-- The strategy with the cost of coming from each strategy of a predecessor. -/
def withResharding (s : Strategy) (predecessor : Nat) (costs : List StepCost) : Strategy :=
  { s with resharding := s.resharding.insert predecessor costs }

/-- The cost of the strategy apart from resharding. -/
def ownCost (s : Strategy) : StepCost := s.compute + s.communication + s.memory

end Strategy

/-- A source of strategies. -/
structure Generator where
  name : String
  /-- The strategies, always in the same order. -/
  generate : Checked (List Strategy)

end ShardPlan
