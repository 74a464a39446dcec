import ShardPlan.Layout.Basic

/-! # Moves between layouts

A move is one collective along one axis that changes the layout of a tensor. Running it backwards, as
the gradient does, is the inverse move. -/

namespace ShardPlan

/-- A step from one layout to another. -/
inductive Move where
  /-- The axis is gathered: it no longer splits the dimension. -/
  | gather (axis dim : Nat)
  /-- The axis moves: it no longer splits `dim`, and becomes the innermost axis of `destination`. -/
  | exchange (axis dim destination : Nat)
  /-- The dimension is split further, with the axis as its innermost one. -/
  | split (axis dim : Nat)
deriving DecidableEq, Repr

namespace Layout

/-- The layout in which the axis no longer splits the dimension. -/
def dropAxis (l : Layout) (axis dim : Nat) : Layout :=
  l.withAxes dim ((l.axes dim).filter fun a => a != axis)

/-- The layout in which the axis is the innermost one of the dimension. -/
def pushAxis (l : Layout) (axis dim : Nat) : Layout := l.withAxes dim (l.axes dim ++ [axis])

end Layout

namespace Move

/-- The axis that a move runs along. -/
def axis : Move → Nat
  | gather axis _ => axis
  | exchange axis _ _ => axis
  | split axis _ => axis

/-- The layout after a move. -/
def apply : Move → Layout → Layout
  | gather axis dim, l => l.dropAxis axis dim
  | exchange axis dim destination, l => (l.dropAxis axis dim).pushAxis axis destination
  | split axis dim, l => l.pushAxis axis dim

/-- The layout after a list of moves. -/
def applyAll (moves : List Move) (l : Layout) : Layout := moves.foldl (fun l move => move.apply l) l

/-- The move that the gradient makes. -/
def inverse : Move → Move
  | gather axis dim => split axis dim
  | exchange axis dim destination => exchange axis destination dim
  | split axis dim => gather axis dim

end Move

end ShardPlan
