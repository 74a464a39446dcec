import ShardPlan.Mesh.Draft

/-! # Descriptions of a mesh

A mesh over the devices `0, 1, …` is described by its shape alone, or by its shape with a name and the
two prices of the link for each axis. Axes without a name are called `x0`, `x1`, …, and axes without
prices have the standard link. -/

namespace ShardPlan

/-- The name of an axis that has no other. -/
def defaultAxisName (axis : Nat) : String := s!"x{axis}"

/-- The mesh of a shape, with default names and standard links. -/
def Mesh.ofShape (shape : List Nat) : Outcome MeshError Mesh := do
  let count ← Size.product shape
  let draft : Draft := { devices := List.range count, shape }
  ((List.range shape.length).foldl (fun d i => d.withName i (defaultAxisName i)) draft).build

/-- A mesh as it is written down. -/
structure MeshDescription where
  shape : List Nat
  /-- The name of each axis, or nothing. -/
  names : List String := []
  /-- The latency of each axis, or nothing. -/
  alpha : List Float := []
  /-- The inverse bandwidth of each axis, or nothing. -/
  beta : List Float := []

namespace MeshDescription

/-- The first list of the description that is not empty and has not one entry for each axis. -/
def entryError? (c : MeshDescription) : Option MeshError :=
  let lists := [("names", c.names.length), ("alpha", c.alpha.length), ("beta", c.beta.length)]
  (lists.find? fun e => e.2 != 0 && e.2 != c.shape.length).map fun e =>
    .entryCount e.1 e.2 c.shape

/-- The name of an axis. -/
def axisName (c : MeshDescription) (i : Nat) : String := (c.names[i]?).getD (defaultAxisName i)

/-- The link of an axis. -/
def axisLink (c : MeshDescription) (i : Nat) : Link :=
  ⟨(c.alpha[i]?).getD Link.standard.alpha, (c.beta[i]?).getD Link.standard.beta⟩

/-- The mesh that a description describes. -/
def build (c : MeshDescription) : Outcome MeshError Mesh := do
  match c.entryError? with
  | some e => .refuse e
  | none =>
    let count ← Size.product c.shape
    let draft : Draft := { devices := List.range count, shape := c.shape }
    ((List.range c.shape.length).foldl
      (fun d i => (d.withName i (c.axisName i)).withLink i (c.axisLink i)) draft).build

end MeshDescription

end ShardPlan
