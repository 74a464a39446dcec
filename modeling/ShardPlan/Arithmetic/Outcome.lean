import ShardPlan.Arithmetic.Checked

/-! # Outcomes

A computation ends with a value, with a refusal that its caller can handle, or with a fault. Checked
computations are used inside of outcomes as they stand. -/

namespace ShardPlan

/-- Why a computation has no value. -/
inductive Failure (ε : Type) where
  /-- A step could not be carried out. -/
  | fault (f : Fault)
  /-- The input was refused. -/
  | refusal (e : ε)

/-- A value, a refusal or a fault. -/
abbrev Outcome (ε : Type) := Except (Failure ε)

namespace Outcome

variable {ε α : Type}

/-- The outcome that refuses the input. -/
def refuse (e : ε) : Outcome ε α := .error (.refusal e)

/-- A checked computation as an outcome without refusals. -/
def ofChecked : Checked α → Outcome ε α
  | .ok a => .ok a
  | .error f => .error (.fault f)

instance : MonadLift Checked (Outcome ε) := ⟨ofChecked⟩

end Outcome

end ShardPlan
