import ShardPlan.Arithmetic.Checked
import ShardPlan.Reshard.Move

/-! # Routes between layouts

A route is the list of moves that leads from one layout to another. First every dimension, in
ascending order, gives up its innermost axis as long as its axes are no prefix of the ones it shall
have. An axis that shall split another dimension next moves there at once; any other axis is gathered.
Then every dimension is split along the axes that it still lacks.

A dimension that neither layout splits has no part in this, so `moves` goes through the split ones only;
`span` counts the dimensions up to the last, which has to be a machine size. -/

namespace ShardPlan

namespace Route

/-- The dimension that an axis given up by `dim` can move to: the first that the axis splits in the
target, if it has by now exactly the axes that come before. -/
def destination? (target current : Layout) (axis dim : Nat) : Option Nat :=
  (target.dimOfAxis? axis).filter fun d =>
    d != dim && current.axes d == (target.axes d).takeWhile fun a => a != axis

/-- The move by which `dim` gives up an axis. -/
def releaseMove (target current : Layout) (axis dim : Nat) : Move :=
  match destination? target current axis dim with
  | some d => .exchange axis dim d
  | none => .gather axis dim

theorem ne_of_destination? {target current : Layout} {axis dim d : Nat}
    (h : destination? target current axis dim = some d) : d ≠ dim := by
  have hfilter := (Option.filter_eq_some_iff.mp h).2
  rw [Bool.and_eq_true, bne_iff_ne] at hfilter
  exact hfilter.1

/-- A dimension that gives up an axis keeps its other axes. -/
theorem axes_apply_releaseMove (target current : Layout) (axis dim : Nat) :
    ((releaseMove target current axis dim).apply current).axes dim =
      (current.axes dim).filter fun a => a != axis := by
  unfold releaseMove
  split
  · rename_i d h
    simp [Move.apply, Layout.pushAxis, Layout.dropAxis, Layout.axes_withAxes,
      ne_of_destination? h]
  · simp [Move.apply, Layout.dropAxis, Layout.axes_withAxes]

/-- The moves by which `dim` gives up its innermost axes until the rest is a prefix of its axes in the
target, and the layout after them. -/
def release (target : Layout) (dim : Nat) (current : Layout) : List Move × Layout :=
  if (current.axes dim).isPrefixOf (target.axes dim) then ([], current)
  else
    match _h : (current.axes dim).getLast? with
    | none => ([], current)
    | some axis =>
      let move := releaseMove target current axis dim
      let (moves, last) := release target dim (move.apply current)
      (move :: moves, last)
termination_by (current.axes dim).length
decreasing_by
  rw [axes_apply_releaseMove]
  refine Nat.lt_of_le_of_ne (List.length_filter_le _ _) fun hlength => ?_
  have := List.length_filter_eq_length_iff.mp hlength axis (List.mem_of_getLast? _h)
  simp at this

/-- The moves by which the dimensions in turn give up axes, and the layout after them. -/
def releaseAll (target : Layout) : List Nat → Layout → List Move × Layout
  | [], current => ([], current)
  | dim :: dims, current =>
    let (moves, next) := release target dim current
    let (further, last) := releaseAll target dims next
    (moves ++ further, last)

/-- The moves that split the dimensions along the axes that they lack. -/
def splits (target current : Layout) (dims : List Nat) : List Move :=
  dims.flatMap fun dim =>
    ((target.axes dim).drop (current.axes dim).length).map fun axis => .split axis dim

/-- The dimensions that either layout splits, in ascending order. -/
def dims (source target : Layout) : List Nat :=
  (SortedMap.ofList (source.partitions ++ target.partitions)).keys

/-- The moves from one layout to another that the given dimensions take part in, in this order. -/
def movesThrough (dims : List Nat) (source target : Layout) : List Move :=
  let (released, current) := releaseAll target dims source
  released ++ splits target current dims

/-- The moves from one layout to another. -/
def moves (source target : Layout) : List Move := movesThrough (dims source target) source target

/-- The number of dimensions of a tensor of the given rank, and of either layout beyond it. -/
def span (rank : Nat) (source target : Layout) : Checked Nat :=
  (source.partitions ++ target.partitions).foldlM (fun n e => return max n (← Size.succ e.1)) rank

end Route

end ShardPlan
