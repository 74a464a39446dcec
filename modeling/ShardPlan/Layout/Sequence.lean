import ShardPlan.Arithmetic.Checked
import ShardPlan.Layout.Basic

/-! # Sequences of a layout

A layout is shown dimension by dimension: `R` for a replicated dimension, `S` and the numbers of its
axes for a split one. The sequence covers a given rank, and the split dimensions beyond it. -/

namespace ShardPlan

namespace Layout

/-- The last dimension that is split. -/
def lastSplit? (l : Layout) : Option Nat := l.partitions.getLast?.map Prod.fst

/-- The number of dimensions that a sequence covers. -/
def sequenceLength (l : Layout) (rank : Nat) : Checked Nat :=
  match l.lastSplit? with
  | none => .ok rank
  | some dim => do
    let length ← Size.succ dim
    return max rank length

/-- How a dimension with the given axes is shown. -/
def dimText (axes : List Nat) : String :=
  if axes.isEmpty then "R" else "S" ++ String.join (axes.map toString)

/-- How each dimension is shown. -/
def dimTexts (l : Layout) (rank : Nat) : Checked (List String) := do
  let length ← l.sequenceLength rank
  return (List.range length).map fun dim => dimText (l.axes dim)

/-- The dimensions in square brackets, such as `[S0, R, S01]`. -/
def sequence (l : Layout) (rank : Nat) : Checked String := do
  let dims ← l.dimTexts rank
  return "[" ++ String.intercalate ", " dims ++ "]"

/-- The dimensions without anything between them, such as `S0RS01`. -/
def compactSequence (l : Layout) (rank : Nat) : Checked String := do
  let dims ← l.dimTexts rank
  return String.join dims

end Layout

end ShardPlan
