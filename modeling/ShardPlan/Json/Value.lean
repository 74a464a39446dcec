import ShardPlan.Json.Token

/-! # Values of the data format

A value is read from its tokens one at a time, with a stack of the arrays and objects that are still
open. Each state says what may come next, and a token that may not is refused. -/

namespace ShardPlan

namespace Json

/-- A value of the data format. Objects keep all their fields in written order. -/
inductive Value where
  | null
  | bool (b : Bool)
  | number (n : Numeral)
  /-- A text, or `none` for a literal that is no text. -/
  | text (s : Option String)
  | array (elements : List Value)
  | object (fields : List (Option String × Value))
deriving Repr

instance : Inhabited Value := ⟨.null⟩

namespace Value

/-! ### Reading -/

/-- An array or object that is still open. What was read of it stands last first. -/
inductive Open where
  /-- The elements before the one being read. -/
  | array (before : List Value)
  /-- The fields before the one being read, and its key. -/
  | object (before : List (Option String × Value)) (key : Option String)

/-- What may come next, and the open values from the innermost on. -/
inductive Reading where
  | value (opened : List Open)
  /-- The first element of an array, or its end. -/
  | firstElement (opened : List Open)
  /-- The first key of an object, or its end. -/
  | firstKey (opened : List Open)
  /-- The key of a further field. -/
  | furtherKey (opened : List Open) (before : List (Option String × Value))
  | colon (opened : List Open) (before : List (Option String × Value)) (key : Option String)
  /-- What follows a complete value. -/
  | complete (opened : List Open) (v : Value)

/-- The state after a token where a value is due. -/
def Reading.begin (opened : List Open) : Token → Option Reading
  | .null => some (.complete opened .null)
  | .bool b => some (.complete opened (.bool b))
  | .number n => some (.complete opened (.number n))
  | .text s => some (.complete opened (.text s))
  | .openArray => some (.firstElement opened)
  | .openObject => some (.firstKey opened)
  | _ => none

/-- The state after a token. -/
def Reading.step : Reading → Token → Option Reading
  | .value opened, t => begin opened t
  | .firstElement opened, .closeArray => some (.complete opened (.array []))
  | .firstElement opened, t => begin (.array [] :: opened) t
  | .firstKey opened, .closeObject => some (.complete opened (.object []))
  | .firstKey opened, .text key => some (.colon opened [] key)
  | .furtherKey opened before, .text key => some (.colon opened before key)
  | .colon opened before key, .colon => some (.value (.object before key :: opened))
  | .complete (.array before :: opened) v, .comma => some (.value (.array (v :: before) :: opened))
  | .complete (.array before :: opened) v, .closeArray =>
    some (.complete opened (.array (v :: before).reverse))
  | .complete (.object before key :: opened) v, .comma => some (.furtherKey opened ((key, v) :: before))
  | .complete (.object before key :: opened) v, .closeObject =>
    some (.complete opened (.object ((key, v) :: before).reverse))
  | _, _ => none

/-- The value of a state in which nothing is open. -/
def Reading.done? : Reading → Option Value
  | .complete [] v => some v
  | _ => none

/-- The value that a list of tokens writes. -/
def ofTokens? (tokens : List Token) : Option Value := do
  let state ← tokens.foldlM Reading.step (.value [])
  state.done?

/-- The value that a text writes. -/
def ofChars? (cs : List Char) : Option Value := do
  let tokens ← Token.ofChars? cs
  ofTokens? tokens

/-- The value that a text writes. -/
def ofText? (s : String) : Option Value := ofChars? s.toList

/-! ### Writing -/

/-- The blanks of a written value. -/
structure Style where
  /-- What stands before an element or a closing bracket at the given depth. -/
  lineBreak : Nat → List Char
  /-- What stands after a colon. -/
  afterColon : List Char

/-- No blanks at all. -/
def Style.compact : Style := ⟨fun _ => [], []⟩

/-- One element a line, with an indent of two blanks for each level. -/
def Style.indented : Style := ⟨fun depth => '\n' :: List.replicate (2 * depth) ' ', [' ']⟩

/-- The characters of a text; a literal that is no text is written as the empty one. -/
def textChars (s : Option String) : List Char := quote (s.getD "").toList

mutual

/-- The characters of a value at a depth. -/
def chars (style : Style) (depth : Nat) : Value → List Char
  | null => "null".toList
  | bool b => (if b then "true" else "false").toList
  | number n => n.chars true
  | text s => textChars s
  | array [] => ['[', ']']
  | array (v :: vs) =>
    '[' :: (style.lineBreak (depth + 1) ++ chars style (depth + 1) v
      ++ (elementChars style (depth + 1) vs ++ (style.lineBreak depth ++ [']'])))
  | object [] => ['\x7b', '\x7d']
  | object ((k, v) :: fields) =>
    '\x7b' :: (style.lineBreak (depth + 1) ++ textChars k ++ ':' :: style.afterColon
      ++ chars style (depth + 1) v
      ++ (fieldChars style (depth + 1) fields ++ (style.lineBreak depth ++ ['\x7d'])))

/-- The characters of further elements, each after a comma. -/
def elementChars (style : Style) (depth : Nat) : List Value → List Char
  | [] => []
  | v :: vs => ',' :: (style.lineBreak depth ++ chars style depth v ++ elementChars style depth vs)

/-- The characters of further fields, each after a comma. -/
def fieldChars (style : Style) (depth : Nat) : List (Option String × Value) → List Char
  | [] => []
  | (k, v) :: fields =>
    ',' :: (style.lineBreak depth ++ textChars k ++ ':' :: style.afterColon
      ++ chars style depth v ++ fieldChars style depth fields)

end

/-- The text of a value on one line. -/
def compact (v : Value) : String := String.ofList (v.chars .compact 0)

/-- The text of a value with one element a line. -/
def indented (v : Value) : String := String.ofList (v.chars .indented 0)

end Value

end Json

end ShardPlan
