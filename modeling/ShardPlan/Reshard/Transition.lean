import ShardPlan.Cost
import ShardPlan.Layout.Shards
import ShardPlan.Mesh.Collective
import ShardPlan.Reshard.Route

/-! # Transitions and their price

A transition is a route together with its price. Every move is priced with the bytes that a device
holds at that moment, in both passes: what is gathered in one pass is split in the other. -/

namespace ShardPlan

/-- The moves from one layout to another and what they cost. -/
structure Transition (K : Type := Float) where
  cost : StepCost K
  moves : List Move

namespace Transition

variable {K : Type} [Scalar K]

/-- The transition between equal layouts. -/
def identity : Transition K := ⟨.zero, []⟩

/-- The prices of a move in the forward and the backward pass, from the layouts before and after. -/
def movePrice (mesh : Mesh K) (t : TensorType) (move : Move) (before after : Layout) :
    Checked (K × K) :=
  match move with
  | .gather axis _ => do
    let bytes ← after.localBytes t mesh
    return (mesh.collectivePrice .allGather bytes axis, mesh.splitPrice axis)
  | .exchange axis _ _ => do
    let bytes ← before.localBytes t mesh
    let price := mesh.collectivePrice .allToAll bytes axis
    return (price, price)
  | .split axis _ => do
    let bytes ← before.localBytes t mesh
    return (mesh.splitPrice axis, mesh.collectivePrice .allGather bytes axis)

/-- The prices of moves from `current` on, added to those of both passes so far. -/
def routePrice (mesh : Mesh K) (t : TensorType) (current : Layout) (forward backward : K) :
    List Move → Checked (StepCost K)
  | [] => .ok (.ofPasses forward backward)
  | move :: moves => do
    let next := move.apply current
    let (f, b) ← movePrice mesh t move current next
    routePrice mesh t next (forward + f) (backward + b) moves

/-- The transition between two layouts of a tensor. The dimensions that it spans must be countable in a
machine word. -/
def between (mesh : Mesh K) (t : TensorType) (source target : Layout) :
    Checked (Transition K) := do
  if source = target then return identity
  let _ ← Route.span t.rank source target
  let moves := Route.moves source target
  let cost ← routePrice mesh t source 0.0 0.0 moves
  return ⟨cost, moves⟩

end Transition

end ShardPlan
