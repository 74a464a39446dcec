import ShardPlan.Arithmetic.Scalar

/-! # Costs of a training step

A cost has a part for each direction of a training step and a total of its own: the total is set by
whoever makes the cost and is only added up afterwards, never computed again from the parts. -/

namespace ShardPlan

/-- A cost split over the two passes of one training step. -/
structure StepCost (K : Type := Float) where
  forward : K
  backward : K
  total : K

namespace StepCost

variable {K : Type} [Scalar K]

/-- The cost of doing nothing. -/
def zero : StepCost K := ⟨0.0, 0.0, 0.0⟩

instance : Inhabited (StepCost K) := ⟨zero⟩

/-- The cost whose total is the sum of both passes. -/
def ofPasses (forward backward : K) : StepCost K := ⟨forward, backward, forward + backward⟩

/-- Costs add up field by field. -/
instance : Add (StepCost K) :=
  ⟨fun c d => ⟨c.forward + d.forward, c.backward + d.backward, c.total + d.total⟩⟩

/-- The sum of a list of costs, from the left and starting at zero. -/
def sum (costs : List (StepCost K)) : StepCost K := costs.foldl (· + ·) zero

/-- Whether every field is a finite number that is not negative. -/
def isUsable (c : StepCost) : Bool :=
  [c.forward, c.backward, c.total].all fun x => x.isFinite && 0.0 ≤ x

/-- Whether every field equals zero, of either sign. -/
def isZero (c : StepCost) : Bool := c.forward == 0.0 && c.backward == 0.0 && c.total == 0.0

end StepCost

end ShardPlan
