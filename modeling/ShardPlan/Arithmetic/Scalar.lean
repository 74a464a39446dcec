/-! # Scalars of a cost formula

Cost formulas are written once for any type with the four operations and decimal literals. They are
run on IEEE doubles, one rounding per operation, and can be read over the rationals. -/

namespace ShardPlan

/-- The operations that cost formulas are made of. -/
class Scalar (K : Type) extends Add K, Sub K, Mul K, Div K, OfScientific K where
  /-- The scalar nearest to a size. -/
  ofSize : Nat → K

instance : Scalar Float where
  ofSize := Float.ofNat

end ShardPlan
