import Std.Data.HashMap
import ShardPlan.Reshard.Transition

/-! # Oracles

An oracle answers what it costs to bring a tensor from one layout to another. It may keep a memory, so
it answers in a monad. -/

namespace ShardPlan

/-- An answer to every question of the form: this tensor, from this layout, to that one. -/
abbrev Oracle (m : Type → Type) := TensorType → Layout → Layout → m Transition

namespace Oracle

variable {m : Type → Type}

/-- The oracle that prices the collectives of a route along the axes of a mesh. -/
def collective (mesh : Mesh) : Oracle Checked := Transition.between mesh

/-- The oracle that gives one cost for every question and names no moves. -/
def constant [Monad m] (cost : StepCost) : Oracle m := fun _ _ _ => pure ⟨cost, []⟩

/-- A question to an oracle. -/
structure Query where
  tensor : TensorType
  source : Layout
  target : Layout
deriving DecidableEq, Hashable

/-- The answers given so far. -/
abbrev Memory := Std.HashMap Query Transition

/-- The oracle that asks `inner` each question once and remembers the answer. -/
def remembering [Monad m] [MonadStateOf Memory m] (inner : Oracle m) : Oracle m :=
  fun tensor source target => do
    let query : Query := ⟨tensor, source, target⟩
    let memory ← get
    match memory[query]? with
    | some answer => return answer
    | none =>
      let answer ← inner tensor source target
      modify fun memory => memory.insert query answer
      return answer

end Oracle

end ShardPlan
