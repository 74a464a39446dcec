import ShardPlan.Decimal.Numeral
import ShardPlan.Json.Text

/-! # Tokens of the data format

The text of a value is a list of tokens with blanks between them. -/

namespace ShardPlan

namespace Json

/-- A token. A text literal that is no text is kept as `none`. -/
inductive Token where
  | openArray
  | closeArray
  | openObject
  | closeObject
  | comma
  | colon
  | null
  | bool (b : Bool)
  | number (n : Numeral)
  | text (s : Option String)
deriving DecidableEq, Repr

namespace Token

/-- The blanks between tokens. -/
def isBlank (c : Char) : Bool := c = ' ' || c = '\t' || c = '\n' || c = '\r'

/-- The token that a character is by itself. -/
def ofMark? (c : Char) : Option Token :=
  if c = '[' then some openArray
  else if c = ']' then some closeArray
  else if c = '\x7b' then some openObject
  else if c = '\x7d' then some closeObject
  else if c = ',' then some comma
  else if c = ':' then some colon
  else none

/-- The characters that words and numerals are made of. -/
def isWordChar (c : Char) : Bool := c.isAlphanum || c = '+' || c = '-' || c = '.'

/-- The token that a run of word characters is. -/
def ofWord? (cs : List Char) : Option Token :=
  if cs = "null".toList then some null
  else if cs = "true".toList then some (bool true)
  else if cs = "false".toList then some (bool false)
  else (Numeral.ofChars? cs).map number

/-- The tokens of a text. -/
def ofChars? : List Char → Option (List Token)
  | [] => some []
  | c :: cs =>
    if isBlank c then ofChars? cs
    else if let some t := ofMark? c then (ofChars? cs).map (t :: ·)
    else if c = '"' then
      match _h : readUnits? cs with
      | none => none
      | some (units, rest) =>
        (ofChars? rest).map (text ((textOfUnits? units).map String.ofList) :: ·)
    else if isWordChar c then
      match ofWord? (c :: cs.takeWhile isWordChar) with
      | none => none
      | some t => (ofChars? (cs.dropWhile isWordChar)).map (t :: ·)
    else none
termination_by cs => cs.length
decreasing_by
  · exact Nat.lt_succ_self _
  · exact Nat.lt_succ_self _
  · exact Nat.lt_succ_of_lt (length_lt_of_readUnits? _h)
  · exact Nat.lt_succ_of_le (List.dropWhile_sublist _).length_le

end Token

end Json

end ShardPlan
