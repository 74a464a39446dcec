import ShardPlan.Candidate.Strategy
import ShardPlan.Layout.Sequence
import ShardPlan.Mesh.Collective

/-! # Strategies of element-wise operations

The inputs are broadcast to the shape of the output, last dimensions aligned. The layout of the output
is chosen, and every input follows it on the dimensions that have the same size in both. An axis that
splits the output but not an input leaves partial gradients of that input, which have to be summed. -/

namespace ShardPlan

/-- The operands of an element-wise operation. -/
structure Elementwise where
  inputs : List Operand
  /-- The result, which has the broadcast shape. -/
  output : Operand

namespace Elementwise

/-- The layouts considered for an output of some rank on a mesh with some number of axes: replicated,
one dimension along one axis, one dimension along all axes, and on two axes each pair of dimensions. -/
def outputLayouts (rank axisCount : Nat) : List Layout :=
  let dims := List.range rank
  let along (dim : Nat) (axes : List Nat) : Layout := Layout.replicated.withAxes dim axes
  [.replicated]
    ++ dims.flatMap (fun dim => (List.range axisCount).map fun axis => along dim [axis])
    ++ (if 1 < axisCount then dims.map fun dim => along dim (List.range axisCount) else [])
    ++ (if axisCount = 2 then
        dims.flatMap fun a => (dims.filter (· != a)).map fun b => (along a [0]).withAxes b [1]
      else [])

/-- The layout of an input that follows the layout of the output. -/
def inputLayout (output input : List Nat) (l : Layout) : Layout :=
  let offset := output.length - input.length
  .ofPairs (l.partitions.filterMap fun e =>
    if e.1 < offset then none
    else if input[e.1 - offset]? = output[e.1]? then some (e.1 - offset, e.2)
    else none)

/-- What a strategy does with one input. -/
structure Share where
  layout : Layout
  bytes : Float
  /-- The price of each sum over partial gradients. -/
  sums : List Float
  text : String

/-- The part of one input in the strategy with the layout `l` of the output. -/
def share (mesh : Mesh) (output : Operand) (l : Layout) (input : Operand) : Checked Share := do
  let layout := inputLayout output.shape input.shape l
  let bytes ← input.localBytes layout mesh
  let axes := (l.partitions.flatMap Prod.snd).filter fun axis => (layout.dimOfAxis? axis).isNone
  let text ← layout.compactSequence input.rank
  return ⟨layout, bytes, axes.map (mesh.collectivePrice .allReduce bytes), text⟩

/-- The strategy with the layout `l` of the output. -/
def strategy (op : Elementwise) (mesh : Mesh) (l : Layout) : Checked Strategy := do
  let elements ← Size.product op.output.shape
  let shards ← l.totalShards mesh
  let work := Float.ofNat elements / Float.ofNat shards
  let outputBytes ← op.output.localBytes l mesh
  let shares ← op.inputs.mapM (share mesh op.output l)
  let memory := (shares.map Share.bytes).foldl (· + ·) outputBytes
  let sums := (shares.flatMap Share.sums).foldl (· + ·) 0.0
  let outputText ← l.compactSequence op.output.rank
  return {
    name := outputText ++ " = " ++ String.intercalate " x " (shares.map Share.text)
    layouts := op.inputs.zip (shares.map Share.layout) ++ [(op.output, l)]
    compute := .ofPasses work work
    communication := .ofPasses 0.0 sums
    memory := .ofPasses memory memory }

/-- The generator of an element-wise operation. -/
def generator (op : Elementwise) (mesh : Mesh) : Generator where
  name := "elementwise"
  generate := (outputLayouts op.output.rank mesh.rank).mapM (op.strategy mesh)

end Elementwise

end ShardPlan
