import ShardPlan.Planning.Site
import ShardPlan.Reshard.Oracle

/-! # Sessions

While it plans, a planner asks an oracle and tells what it does. A session provides both, in a monad of
its own choice. Two sessions are defined here: a silent one over any oracle, and one that keeps the answers
of its oracle and a log. -/

namespace ShardPlan

/-! ### Events -/

/-- How much an event matters. -/
inductive Severity where
  | debug
  | info
  | warn
deriving DecidableEq, Repr

/-- The name of a severity. -/
def Severity.name : Severity → String
  | debug => "DEBUG"
  | info => "INFO"
  | warn => "WARN"

/-- What a planner does. -/
inductive Event where
  /-- A generator has listed strategies. -/
  | generated (generator : String) (count : Nat) (node : NodeLabel)
  | rejecting (strategy : String) (refusal : Refusal)
  | deadEnd (node : NodeLabel) (rejected : Nat)
  | committed (count : Nat) (node : NodeLabel)
  | planned (nodes strategies rejected deadEnds : Nat)

namespace Event

/-- How much an event matters. -/
def severity : Event → Severity
  | generated .. | committed .. => .debug
  | rejecting .. | deadEnd .. => .warn
  | planned .. => .info

/-- What the log says of an event. -/
def text : Event → Checked String
  | generated generator count node =>
    let node := node.text
    .ok s!"Generator {generator} produced {count} strategies for node {node}"
  | rejecting strategy refusal => do
    let refusal ← refusal.message
    return s!"Rejecting strategy '{strategy}': {refusal}"
  | deadEnd node rejected =>
    let node := node.text
    .ok s!"Node {node} has no viable strategy: all {rejected} candidates were rejected"
  | committed count node =>
    let node := node.text
    .ok s!"Committed {count} strategies for node {node}"
  | planned nodes strategies rejected deadEnds =>
    .ok (s!"Planned {nodes} nodes: {strategies} strategies committed, {rejected} rejected, "
      ++ s!"{deadEnds} dead ends")

end Event

/-! ### Sessions -/

/-- What a planner needs beside its input. -/
structure Session (m : Type → Type) where
  ask : Oracle m
  note : Event → m Unit

section Running

variable {m : Type → Type} [Monad m] [MonadExceptOf (Failure Refusal) m] {α : Type}

/-- An outcome as a run. -/
def raise : Planned α → m α
  | .ok a => pure a
  | .error e => throw e

/-- A checked computation as a run. -/
def raiseChecked (x : Checked α) : m α := raise (Outcome.ofChecked x)

/-- A run with its refusal as a value. Faults are passed on. -/
def attempt (x : m α) : m (Except Refusal α) :=
  tryCatch (Except.ok <$> x) fun
    | .refusal e => pure (.error e)
    | .fault f => throw (.fault f)

end Running

/-- The session that asks `oracle` and keeps no log. -/
def Session.silent {m : Type → Type} [Monad m] (oracle : Oracle m) : Session m where
  ask := oracle
  note _ := pure ()

/-- An oracle without refusals as one of outcomes. -/
def Oracle.ofChecked (oracle : Oracle Checked) : Oracle Planned :=
  fun tensor source target => Outcome.ofChecked (oracle tensor source target)

/-! ### Sessions that keep answers and a log -/

/-- What a session keeps. -/
structure Diary where
  /-- The answers of the oracle. -/
  memory : Oracle.Memory := {}
  /-- The log, last entry first. -/
  log : List (Severity × String) := []

/-- The runs of a session that keeps a diary. What was kept before a failure stays. -/
abbrev Live := ExceptT (Failure Refusal) (StateM Diary)

instance (priority := high) : MonadStateOf Oracle.Memory Live where
  get := do return (← getThe Diary).memory
  set memory := modifyThe Diary fun diary => { diary with memory }
  modifyGet f := modifyGetThe Diary fun diary =>
    let (a, memory) := f diary.memory
    (a, { diary with memory })

/-- The session that asks `oracle` and keeps a log. -/
def Session.logging (oracle : Oracle Live) : Session Live where
  ask := oracle
  note event := do
    let text ← raiseChecked event.text
    modifyThe Diary fun diary => { diary with log := (event.severity, text) :: diary.log }

/-- An oracle of outcomes that is asked each question once, with its answers kept in the diary. -/
def Oracle.remembered (oracle : Oracle Planned) : Oracle Live :=
  Oracle.remembering fun tensor source target => raise (oracle tensor source target)

end ShardPlan
