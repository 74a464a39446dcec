import ShardPlan.Arithmetic.Checked
import ShardPlan.Decimal.Notation
import ShardPlan.Decimal.Reading
import ShardPlan.Json.Value

/-! # Records in the data format

A record is stored as an object of its fields or as an array of them in declared order. An object may
hold further fields, which are skipped, but a field of the record may stand there only once. An array
may stop early, but may not be too long. -/

namespace ShardPlan

namespace Json

namespace Value

/-! ### Plain values -/

/-- The value of a text. -/
def ofString (s : String) : Value := .text (some s)

/-- The value of a size. -/
def ofSize (n : Nat) : Value := .number (.ofNat n)

/-- The value of a double; one that is not finite is stored as null. -/
def ofDouble (x : Float) : Value :=
  match Notation.data.numeral? x with
  | some n => .number n
  | none => .null

/-- The array of a list. -/
def ofList {α : Type} (f : α → Value) (l : List α) : Value := .array (l.map f)

/-- The object of fields with their names. -/
def ofFields (fields : List (String × Value)) : Value :=
  .object (fields.map fun e => (some e.1, e.2))

/-- The truth value stored. -/
def toBool? : Value → Option Bool
  | .bool b => some b
  | _ => none

/-- The size stored: digits alone, within a machine word. -/
def toSize? : Value → Option Nat
  | .number n => n.toSize? wordLimit
  | _ => none

/-- The double stored. -/
def toDouble? : Value → Option Float
  | .number n => n.toDouble?
  | _ => none

/-- The text stored. -/
def toString? : Value → Option String
  | .text s => s
  | _ => none

/-- The list stored, if every element is as `f` wants it. -/
def toList? {α : Type} (f : Value → Option α) : Value → Option (List α)
  | .array vs => vs.mapM f
  | _ => none

/-! ### Records -/

/-- The one value of a field in an object: `none` if the field stands there twice, and `some none` if
it does not stand there. -/
def field? (entries : List (String × Value)) (name : String) : Option (Option Value) :=
  match entries.filter fun e => e.1 == name with
  | [] => some none
  | [e] => some (some e.2)
  | _ => none

/-- The values of the fields of a record in declared order; a field may be missing. -/
def fields? (names : List String) : Value → Option (List (Option Value))
  | .object entries => do
    let entries ← entries.mapM fun e => e.1.map fun key => (key, e.2)
    names.mapM (field? entries)
  | .array vs =>
    if vs.length ≤ names.length then
      some (vs.map some ++ List.replicate (names.length - vs.length) none)
    else none
  | _ => none

/-- The value of a field that has to be there. -/
def required {α : Type} (f : Value → Option α) : Option Value → Option α
  | none => none
  | some v => f v

/-- The value of a field, or `default` if the field is missing. -/
def withDefault {α : Type} (default : α) (f : Value → Option α) : Option Value → Option α
  | none => some default
  | some v => f v

end Value

end Json

end ShardPlan
