import ShardPlan.Planning.Handler
import ShardPlan.Planning.Session

/-! # Registration of a node

The strategies of a node are generated, refined, checked against the sizes of the tensors and priced
against the strategies of every predecessor. Those that fit are committed in the order in which they were
generated; of the others the reason is kept. -/

namespace ShardPlan

/-- The strategies of a node, in an order that others refer to. -/
structure Candidates where
  node : Nat
  strategies : List Strategy

/-- The strategies of the nodes that were handled so far. -/
abbrev Published := SortedMap Nat Candidates

/-- What became of the strategies of a node. -/
structure Registration where
  /-- The strategies that fit. -/
  candidates : Candidates
  /-- Why each other strategy does not. -/
  rejected : List Refusal

/-- Whether there were strategies, but none fits. -/
def Registration.isDeadEnd (r : Registration) : Bool :=
  r.candidates.strategies.isEmpty && !r.rejected.isEmpty

namespace Site

/-! ### Predecessors -/

/-- Refuses the node for the first of its predecessors that has no strategies yet. -/
def checkPredecessors (site : Site) (published : Published) : List Nat → Planned Unit
  | [] => .ok ()
  | id :: rest =>
    if published.contains id then checkPredecessors site published rest
    else do
      let previous ← site.predecessor id
      .error (.refusal (.unordered site.node.label previous.label))

/-- The strategies of a predecessor. -/
def candidatesOf (site : Site) (published : Published) (previous : Node) (id : Nat) :
    Planned Candidates :=
  match published.get? id with
  | none => .error (.refusal (.unordered site.node.label previous.label))
  | some candidates => .ok candidates

/-- The tensors and layouts of operands. -/
def typedOperands (site : Site) (operands : List (Operand × Layout)) :
    Planned (List (TensorType × Layout)) :=
  operands.mapM fun e =>
    match e.1.tensor with
    | none => site.refuse (.untypedOperand e.1.name)
    | some t => .ok (t, e.2)

/-- The tensors that a predecessor feeds into a strategy, with their layouts. There must be one. -/
def demands (site : Site) (previous : Node) (id : Nat) (s : Strategy) :
    Planned (List (TensorType × Layout)) := do
  let operands ← site.typedOperands (s.argumentsFrom id)
  if operands.isEmpty then site.refuse (.noArgumentFrom s.name previous.label)
  return operands

/-- The layout of the result of a strategy of a predecessor. -/
def supply (site : Site) (previous : Node) (candidate : Strategy) : Planned Layout :=
  match candidate.result? with
  | none => site.refuse (.noResult candidate.name previous.label)
  | some e => .ok e.2

/-- The refusal of a cost that cannot be used. -/
def refuseCost {α : Type} (site : Site) (cost : StepCost) (t : TensorType)
    (source target : Layout) : Planned α := do
  let source ← source.sequence t.rank
  let target ← target.sequence t.rank
  site.refuse (.unusableCost cost source target)

end Site

section Running

variable {m : Type → Type} [Monad m] [MonadExceptOf (Failure Refusal) m]

/-! ### Resharding -/

/-- The cost of bringing a tensor from `source` to `target`, added to `cost`. -/
def addTransition (session : Session m) (site : Site) (source : Layout) (cost : StepCost)
    (demand : TensorType × Layout) : m StepCost := do
  let transition ← session.ask demand.1 source demand.2
  if transition.cost.isUsable then pure (cost + transition.cost)
  else raise (site.refuseCost transition.cost demand.1 source demand.2)

/-- For each strategy of a predecessor, the cost of coming from it to the strategy `s`. The costs of all
the operands that the predecessor feeds are added up. -/
def reshardingCosts (session : Session m) (site : Site) (published : Published) (s : Strategy)
    (id : Nat) : m (List StepCost) := do
  let previous ← raise (site.predecessor id)
  let candidates ← raise (site.candidatesOf published previous id)
  let demands ← raise (site.demands previous id s)
  candidates.strategies.mapM fun candidate => do
    let source ← raise (site.supply previous candidate)
    demands.foldlM (addTransition session site source) .zero

/-- The strategy with the costs of coming from each of the predecessors in turn, up to the first that is
refused. -/
def reshardUntil (session : Session m) (site : Site) (published : Published) :
    List Nat → Strategy → m (Strategy × Option Refusal)
  | [], s => pure (s, none)
  | id :: rest, s => do
    match ← attempt (reshardingCosts session site published s id) with
    | .error refusal => pure (s, some refusal)
    | .ok costs => reshardUntil session site published rest (s.withResharding id costs)

/-- The strategy with the costs of coming from every predecessor. -/
def reshard (session : Session m) (site : Site) (published : Published) (s : Strategy) :
    m Strategy :=
  site.node.predecessors.foldlM (fun s id => do
    let costs ← reshardingCosts session site published s id
    pure (s.withResharding id costs)) s

/-! ### Registration -/

/-- The refined strategies of all generators, in order. -/
def generateAll (session : Session m) (site : Site) (handler : Handler) :
    List Generator → m (List Strategy)
  | [] => pure []
  | generator :: rest => do
    let generated ← raiseChecked generator.generate
    session.note (.generated generator.name generated.length site.node.label)
    let refined ← generated.mapM fun s => raise (handler.refine s)
    let others ← generateAll session site handler rest
    pure (refined.flatten ++ others)

/-- The strategies that fit, priced against the predecessors if `pricing` is set, and the refusals of the
others. -/
def judge (session : Session m) (site : Site) (published : Published) (pricing : Bool) :
    List Strategy → m (List Strategy × List Refusal)
  | [] => pure ([], [])
  | s :: rest => do
    match ← raiseChecked (site.misfit? s) with
    | some refusal =>
      session.note (.rejecting s.name refusal)
      let (committed, rejected) ← judge session site published pricing rest
      pure (committed, refusal :: rejected)
    | none =>
      let s ← if pricing then reshard session site published s else pure s
      let (committed, rejected) ← judge session site published pricing rest
      pure (s :: committed, rejected)

/-- Generates, checks, prices and commits the strategies of a node. -/
def register (session : Session m) (site : Site) (published : Published) (handler : Handler)
    (pricing : Bool) : m Registration := do
  if pricing then raise (site.checkPredecessors published site.node.predecessors)
  let generators ← raise handler.generators
  let generated ← generateAll session site handler generators
  let (committed, rejected) ← judge session site published pricing generated
  let registration : Registration := ⟨⟨site.node.id, committed⟩, rejected⟩
  session.note <|
    if registration.isDeadEnd then .deadEnd site.node.label rejected.length
    else .committed committed.length site.node.label
  pure registration

end Running

end ShardPlan
