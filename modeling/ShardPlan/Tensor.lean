import ShardPlan.Arithmetic.Checked

/-! # Tensors

What the planner knows of a tensor: its element type and its global shape, taken over all devices.
Element counts and byte sizes are machine sizes, so they can overflow. -/

namespace ShardPlan

/-! ### Element types -/

/-- The type of the elements of a tensor. -/
inductive ElementType where
  | f64 | f32 | f16 | bf16 | i64 | i32 | i8 | u8 | bool
deriving DecidableEq, Repr, Hashable

namespace ElementType

/-- Every element type. -/
def all : List ElementType := [f64, f32, f16, bf16, i64, i32, i8, u8, bool]

/-- The written name of an element type. -/
def name : ElementType → String
  | f64 => "F64"
  | f32 => "F32"
  | f16 => "F16"
  | bf16 => "BF16"
  | i64 => "I64"
  | i32 => "I32"
  | i8 => "I8"
  | u8 => "U8"
  | bool => "Bool"

/-- The element type of a written name. -/
def ofName? (name : String) : Option ElementType := all.find? fun t => t.name == name

/-- The bytes that one element takes. -/
def size : ElementType → Nat
  | f64 | i64 => 8
  | f32 | i32 => 4
  | f16 | bf16 => 2
  | i8 | u8 | bool => 1

theorem ofName?_name (t : ElementType) : ofName? t.name = some t := by cases t <;> rfl

end ElementType

/-! ### Shapes in text -/

/-- A list of sizes in square brackets. -/
def sizesText (sizes : List Nat) : String :=
  "[" ++ String.intercalate ", " (sizes.map toString) ++ "]"

/-! ### Tensor types -/

/-- The element type and the global shape of a tensor. -/
structure TensorType where
  shape : List Nat
  element : ElementType
deriving DecidableEq, Repr, Hashable

namespace TensorType

/-- The number of dimensions. -/
def rank (t : TensorType) : Nat := t.shape.length

/-- The number of elements. -/
def elementCount (t : TensorType) : Checked Nat := Size.product t.shape

/-- The size of the whole tensor in bytes. -/
def byteSize (t : TensorType) : Checked Nat := do
  let count ← t.elementCount
  Size.mul count t.element.size

/-- The size of dimension `dim`, or the fault of looking outside of the shape. -/
def dimSize (t : TensorType) (dim : Nat) : Checked Nat :=
  match t.shape[dim]? with
  | some size => .ok size
  | none => .error (.indexOutOfRange t.rank dim)

/-- The same tensor with two of its dimensions exchanged. -/
def transposed (t : TensorType) (a b : Nat) : Checked TensorType := do
  let sizeA ← t.dimSize a
  let sizeB ← t.dimSize b
  return { t with shape := (t.shape.set a sizeB).set b sizeA }

/-- The element type followed by the shape. -/
def text (t : TensorType) : String := t.element.name ++ sizesText t.shape

end TensorType

end ShardPlan
