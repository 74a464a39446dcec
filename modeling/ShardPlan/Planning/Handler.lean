import ShardPlan.Candidate.Boundary
import ShardPlan.Candidate.Elementwise
import ShardPlan.Candidate.Linear
import ShardPlan.Planning.Site

/-! # Handlers

A handler knows one kind of node: which data its logical operands are, which generators list its
strategies, and how a strategy about logical operands becomes one about the data. -/

namespace ShardPlan

/-- The data that the logical operands stand for. -/
abbrev OperandMap := SortedMap String Operand

/-- How a node is handled. -/
structure Handler where
  /-- The data of the logical operands. -/
  operands : Planned OperandMap
  /-- The sources of strategies, in order. -/
  generators : Planned (List Generator)
  /-- The strategies that a generated strategy becomes. -/
  refine : Strategy → Planned (List Strategy) := fun s => .ok [s]

/-- A way to handle nodes. -/
abbrev Factory := Site → Planned Handler

/-- The data of a logical operand. -/
def Site.mapped (site : Site) (operands : OperandMap) (name : String) : Planned Operand :=
  match operands.get? name with
  | none => site.refuse (.missingOperand name)
  | some operand => .ok operand

namespace Handler

/-! ### Inputs and outputs of the graph -/

/-- The operands of an input. -/
def inputOperands (site : Site) : Planned OperandMap := do
  let output ← site.result
  return SortedMap.empty.insert "output" output

/-- The handler of inputs. -/
def input : Factory := fun site => .ok {
  operands := inputOperands site
  generators := do
    let operands ← inputOperands site
    let output ← site.mapped operands "output"
    return [Boundary.inputGenerator site.mesh output] }

/-- The name of a returned value as an operand. -/
def returnedName (index : Nat) : String := s!"input_{index}"

/-- The operands of an output. -/
def outputOperands (site : Site) : Planned OperandMap :=
  (List.range site.node.args.length).foldlM (fun operands index => do
    let operand ← site.argument index
    return operands.insert (returnedName index) operand) .empty

/-- The handler of outputs. -/
def output : Factory := fun site => .ok {
  operands := outputOperands site
  generators := do
    let operands ← outputOperands site
    let inputs := (List.range operands.size).filterMap fun index =>
      operands.get? (returnedName index)
    return [Boundary.outputGenerator site.mesh inputs] }

/-! ### Element-wise functions -/

/-- The logical names of the arguments of an element-wise function. -/
def argumentNames : List String := ["input", "other"]

/-- The operands of an element-wise function. -/
def elementwiseOperands (site : Site) : Planned OperandMap := do
  let count := site.node.args.length
  if count = 0 ∨ argumentNames.length < count then site.refuse (.argumentCount count)
  let arguments ← (argumentNames.take count).zipIdx.foldlM (fun operands e => do
    let operand ← site.argument e.2
    return operands.insert e.1 operand) SortedMap.empty
  let output ← site.result
  return arguments.insert "output" output

/-- The handler of element-wise functions. -/
def elementwise : Factory := fun site => .ok {
  operands := elementwiseOperands site
  generators := do
    let operands ← elementwiseOperands site
    let output ← site.mapped operands "output"
    let operation : Elementwise := ⟨argumentNames.filterMap operands.get?, output⟩
    return [operation.generator site.mesh] }

/-! ### Linear layers -/

/-- The type of the weight of a linear layer, which must be a matrix. -/
def weightType (site : Site) (m : ModuleTree) : Planned TensorType := do
  let weight ← site.parameter m "weight"
  if weight.rank ≠ 2 then site.refuse (.weightRank weight.shape)
  return weight

/-- The weight of a linear layer as it is stored, with the features of the output first. -/
def storedWeight (site : Site) (m : ModuleTree) : Planned Operand := do
  let weight ← weightType site m
  return .ofParameter "weight" weight

/-- The weight of a linear layer with the contracted dimension first. -/
def logicalWeight (site : Site) (m : ModuleTree) : Planned Operand := do
  let weight ← weightType site m
  let transposed ← weight.transposed 0 1
  return .ofParameter "weight" transposed

/-- The operands of a linear layer. -/
def linearOperands (site : Site) (m : ModuleTree) : Planned OperandMap := do
  let input ← site.argument 0
  let weight ← logicalWeight site m
  let operands := (SortedMap.empty.insert "input" input).insert "other" weight
  let operands := match m.parameters.get? "bias" with
    | none => operands
    | some bias => operands.insert "bias" (.ofParameter "bias" bias)
  let output ← site.result
  return operands.insert "output" output

/-- A strategy about the logical weight as one about the stored weight. -/
def storeWeight (site : Site) (m : ModuleTree) (s : Strategy) : Planned (List Strategy) := do
  let logical ← logicalWeight site m
  let stored ← storedWeight site m
  match s.layoutOf? logical with
  | none => site.refuse (.noWeightLayout s.name)
  | some layout => return [(s.replace? logical stored (layout.transposed 0 1)).getD s]

/-- The handler of linear layers. -/
def linear : Factory := fun site => do
  let m ← site.calledModule
  return {
    operands := linearOperands site m
    generators := do
      let operands ← linearOperands site m
      let input ← site.mapped operands "input"
      let weight ← site.mapped operands "other"
      let output ← site.mapped operands "output"
      let layer : Linear := ⟨input, weight, operands.get? "bias", output⟩
      return [layer.generator site.mesh]
    refine := storeWeight site m }

end Handler

end ShardPlan
