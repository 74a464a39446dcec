import ShardPlan.Cost
import ShardPlan.Json.Record
import ShardPlan.Mesh.Description
import ShardPlan.Planning.Options
import ShardPlan.Tensor

/-! # Stored forms

Tensor types, costs, mesh descriptions and planner options can be stored as values of the data format.
Reading refuses whatever is not such a value, without saying why. -/

namespace ShardPlan

/-- A type with a stored form. -/
class Stored (α : Type) where
  /-- The value that stores `a`. -/
  toValue (a : α) : Json.Value
  /-- What a value stores. -/
  ofValue? (v : Json.Value) : Option α

namespace Stored

open Json

/-! ### Forms of the types -/

/-- An element type is stored by its name. Reading also takes an object whose only key is the name and
whose value is null. -/
instance : Stored ElementType where
  toValue t := .ofString t.name
  ofValue?
    | .text (some s) => ElementType.ofName? s
    | .object [(some s, .null)] => ElementType.ofName? s
    | _ => none

/-- Tensor types keep both fields. -/
instance : Stored TensorType where
  toValue t := .ofFields [("shape", .ofList .ofSize t.shape), ("dtype", toValue t.element)]
  ofValue? v := do
    match ← v.fields? ["shape", "dtype"] with
    | [shape, element] =>
      let shape ← Value.required (Value.toList? Value.toSize?) shape
      let element ← Value.required ofValue? element
      some ⟨shape, element⟩
    | _ => none

/-- Costs keep all three fields. -/
instance : Stored StepCost where
  toValue c := .ofFields
    [("forward", .ofDouble c.forward), ("backward", .ofDouble c.backward),
      ("total", .ofDouble c.total)]
  ofValue? v := do
    match ← v.fields? ["forward", "backward", "total"] with
    | [forward, backward, total] =>
      let forward ← Value.required Value.toDouble? forward
      let backward ← Value.required Value.toDouble? backward
      let total ← Value.required Value.toDouble? total
      some ⟨forward, backward, total⟩
    | _ => none

/-- Mesh descriptions keep all lists; when one is read, only the shape has to be there. -/
instance : Stored MeshDescription where
  toValue c := .ofFields
    [("shape", .ofList .ofSize c.shape), ("names", .ofList .ofString c.names),
      ("alpha", .ofList .ofDouble c.alpha), ("beta", .ofList .ofDouble c.beta)]
  ofValue? v := do
    match ← v.fields? ["shape", "names", "alpha", "beta"] with
    | [shape, names, alpha, beta] =>
      let shape ← Value.required (Value.toList? Value.toSize?) shape
      let names ← Value.withDefault [] (Value.toList? Value.toString?) names
      let alpha ← Value.withDefault [] (Value.toList? Value.toDouble?) alpha
      let beta ← Value.withDefault [] (Value.toList? Value.toDouble?) beta
      some ⟨shape, names, alpha, beta⟩
    | _ => none

/-- Options keep all fields; when they are read, a missing field has its default. -/
instance : Stored Options where
  toValue o := .ofFields
    [("compute_resharding_cost", .bool o.priceResharding), ("parallel", .bool o.parallel),
      ("fail_on_dead_end", .bool o.failOnDeadEnd)]
  ofValue? v := do
    match ← v.fields? ["compute_resharding_cost", "parallel", "fail_on_dead_end"] with
    | [pricing, parallel, failing] =>
      let pricing ← Value.withDefault ({} : Options).priceResharding Value.toBool? pricing
      let parallel ← Value.withDefault ({} : Options).parallel Value.toBool? parallel
      let failing ← Value.withDefault ({} : Options).failOnDeadEnd Value.toBool? failing
      some ⟨pricing, parallel, failing⟩
    | _ => none

/-! ### Texts and files -/

variable {α : Type} [Stored α]

/-- The stored form on one line. -/
def compactText (a : α) : String := (toValue a).compact

/-- The stored form with one element a line. -/
def text (a : α) : String := (toValue a).indented

/-- What a text stores. -/
def ofText? (s : String) : Option α := do
  let v ← Value.ofText? s
  ofValue? v

/-- Why a stored form cannot be read or saved. -/
inductive ReadError where
  /-- The text does not store a value of the type. -/
  | invalidFormat
  /-- There is no text at the path, or none can be written there. -/
  | fileNotFound (path : String)
deriving DecidableEq, Repr

/-- The text that reports a path without a text. -/
def fileNotFoundMessage (path : String) : String := s!"Config error => File not found: {path}"

/-- What the file at `path` stores, given its bytes if it can be read. Bytes that are no text count as
no file. -/
def ofFile (path : String) (bytes : Option ByteArray) : Except ReadError α :=
  match bytes.bind String.fromUTF8? with
  | none => .error (.fileNotFound path)
  | some s =>
    match ofText? s with
    | none => .error .invalidFormat
    | some a => .ok a

/-- The bytes that saving `a` leaves in the file at `path`, if the file can be written. -/
def toFile (path : String) (writable : Bool) (a : α) : Except ReadError ByteArray :=
  if writable then .ok (text a).toUTF8 else .error (.fileNotFound path)

end Stored

end ShardPlan
