import ShardPlan.Candidate.Strategy

/-! # Strategies at the boundary of a graph

What enters a graph and what leaves it is held in full by every device. -/

namespace ShardPlan

namespace Boundary

/-- The one strategy of an input. -/
def inputStrategy (mesh : Mesh) (output : Operand) : Checked Strategy := do
  let bytes ← output.localBytes .replicated mesh
  return {
    name := "Replica Placeholder"
    layouts := [(output, .replicated)]
    memory := .ofPasses bytes 0.0 }

/-- The generator of an input. -/
def inputGenerator (mesh : Mesh) (output : Operand) : Generator where
  name := "placeholder"
  generate := do return [← inputStrategy mesh output]

/-- The one strategy of an output. Its bytes are summed from `-0.0`, so that without inputs they are that
zero. -/
def outputStrategy (mesh : Mesh) (inputs : List Operand) : Checked Strategy := do
  let bytes ← inputs.mapM fun input => input.localBytes .replicated mesh
  return {
    name := "Replica Output"
    layouts := inputs.map fun input => (input, .replicated)
    memory := .ofPasses (bytes.foldl (· + ·) (-0.0)) 0.0 }

/-- The generator of an output. -/
def outputGenerator (mesh : Mesh) (inputs : List Operand) : Generator where
  name := "output"
  generate := do return [← outputStrategy mesh inputs]

end Boundary

end ShardPlan
