import ShardPlan.Candidate.Strategy
import ShardPlan.Mesh.Collective

/-! # Strategies of linear layers

The layer computes `output[…, n] = input[…, k] × weight[k, n] + bias[n]`. An axis can split the batch,
the features of the output or the contracted dimension; a second axis can be used together with a batch
axis. The bias follows the last dimension of the output. -/

namespace ShardPlan

/-- The operands of a linear layer. -/
structure Linear where
  /-- The data, with the contracted dimension last. -/
  input : Operand
  /-- The weight with the contracted dimension first. -/
  weight : Operand
  /-- What is added to the features of the output, if anything is. -/
  bias : Option Operand
  /-- The result, with the features last. -/
  output : Operand

namespace Linear

/-- The layouts of a strategy, and the axes along which partial results have to be summed. -/
structure Choice where
  /-- The layouts in short. -/
  name : String
  input : Layout := .replicated
  weight : Layout := .replicated
  output : Layout := .replicated
  /-- The axis along which the output is partial. -/
  sumOutput : Option Nat := none
  /-- The axis along which the gradient of the weight is partial. -/
  sumWeightGradient : Option Nat := none
  /-- The axis along which the gradient of the input is partial. -/
  sumInputGradient : Option Nat := none

/-- The number of the last dimension of an operand, zero if it has none. -/
def lastDim (o : Operand) : Nat := o.rank - 1

/-- The choices with one axis: it splits the batch if there is one, the features of the output, or the
contracted dimension. -/
def singleChoices (inputLast outputLast axis : Nat) : List Choice :=
  let along (dim : Nat) : Layout := Layout.replicated.withAxes dim [axis]
  (if 0 < inputLast then
    [{ name := s!"S{axis}R = S{axis}R x RR"
       input := along 0
       output := along 0
       sumWeightGradient := some axis }]
  else [])
  ++ [{ name := s!"RS{axis} = RR x RS{axis}"
        weight := along 1
        output := along outputLast
        sumInputGradient := some axis },
      { name := s!"RR = RS{axis} x S{axis}R"
        input := along inputLast
        weight := along 0
        sumOutput := some axis }]

/-- The choices with two axes: the first splits the batch, the second the features of the output or
the contracted dimension. -/
def doubleChoices (inputLast outputLast a b : Nat) : List Choice :=
  let along (dim axis : Nat) : Layout := Layout.replicated.withAxes dim [axis]
  [{ name := s!"S{a}S{b} = S{a}R x RS{b}"
     input := along 0 a
     weight := along 1 b
     output := (along 0 a).withAxes outputLast [b]
     sumWeightGradient := some a
     sumInputGradient := some b },
   { name := s!"S{a}R = S{a}S{b} x S{b}R"
     input := (along 0 a).withAxes inputLast [b]
     weight := along 0 b
     output := along 0 a
     sumOutput := some b
     sumWeightGradient := some a }]

/-- All choices on a mesh with some number of axes. -/
def choices (inputLast outputLast axisCount : Nat) : List Choice :=
  let axes := List.range axisCount
  [{ name := "RR = RR x RR" }]
    ++ axes.flatMap (singleChoices inputLast outputLast)
    ++ (if 0 < inputLast then
        axes.flatMap fun a =>
          (axes.filter (· != a)).flatMap (doubleChoices inputLast outputLast a)
      else [])

/-- The different axes that a choice uses. -/
def Choice.axes (c : Choice) : List Nat :=
  ([c.input, c.weight, c.output].flatMap fun l => l.partitions.flatMap Prod.snd).eraseDups

/-- The layout of the bias in a choice. -/
def biasLayout (op : Linear) (c : Choice) : Layout :=
  .ofPairs [(0, c.output.axes (lastDim op.output))]

/-- The price of a sum over partial results along an axis, if there is one. -/
def sumPrice (mesh : Mesh) (bytes : Float) : Option Nat → Float
  | some axis => mesh.collectivePrice .allReduce bytes axis
  | none => 0.0

/-- The strategy of a choice. -/
def strategy (op : Linear) (mesh : Mesh) (c : Choice) : Checked Strategy := do
  let contracted := Float.ofNat (op.weight.shape.head?.getD 1)
  let elements ← Size.product op.output.shape
  let shards ← mesh.shardCount c.axes
  let flops := 2.0 * Float.ofNat elements * contracted / Float.ofNat shards
  let biasLayout := op.biasLayout c
  let inputBytes ← op.input.localBytes c.input mesh
  let weightBytes ← op.weight.localBytes c.weight mesh
  let outputBytes ← op.output.localBytes c.output mesh
  let biasBytes ← match op.bias with
    | some bias => bias.localBytes biasLayout mesh
    | none => pure 0.0
  let forward := sumPrice mesh outputBytes c.sumOutput
  let backward := sumPrice mesh (weightBytes + biasBytes) c.sumWeightGradient
    + sumPrice mesh inputBytes c.sumInputGradient
  let memory := inputBytes + weightBytes + outputBytes + biasBytes
  return {
    name := c.name
    layouts := [(op.input, c.input), (op.weight, c.weight)]
      ++ (op.bias.toList.map fun bias => (bias, biasLayout)) ++ [(op.output, c.output)]
    compute := .ofPasses flops (2.0 * flops)
    communication := .ofPasses forward backward
    memory := .ofPasses memory memory }

/-- The generator of a linear layer. -/
def generator (op : Linear) (mesh : Mesh) : Generator where
  name := "linear"
  generate := (choices (lastDim op.input) (lastDim op.output) mesh.rank).mapM (op.strategy mesh)

end Linear

end ShardPlan
