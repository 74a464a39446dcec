/-! # Numerals

A numeral is a decimal number as it is written: sign, whole part, the digits after the point, and an
exponent of ten. The grammar is the one of data interchange: no leading zeros, at least one digit
on either side of a point, and an exponent with an optional sign. -/

namespace ShardPlan

/-- A written decimal number. -/
structure Numeral where
  negative : Bool := false
  /-- The digits before the point, which have no leading zeros. -/
  whole : Nat
  /-- The digits after the point; no digit means no point. -/
  fraction : List (Fin 10) := []
  /-- The power of ten that follows, if one is written. -/
  exponent : Option Int := none
deriving DecidableEq, Repr

namespace Numeral

/-! ### Digits -/

/-- The character of a digit. -/
def digitChar (d : Fin 10) : Char := Nat.digitChar d.val

/-- The digit of a character. -/
def digit? (c : Char) : Option (Fin 10) :=
  if h : c.toNat - 48 < 10 then if c.isDigit then some ⟨c.toNat - 48, h⟩ else none else none

/-- The digits of a number, the highest first. -/
def digitsOf (n : Nat) : List (Fin 10) := (Nat.toDigits 10 n).filterMap digit?

/-! ### Writing -/

/-- The digits of a number as characters. -/
def natChars (n : Nat) : List Char := Nat.toDigits 10 n

/-- The exponent part of a numeral. A positive exponent shows its sign if `plus` says so. -/
def exponentChars (plus : Bool) (e : Int) : List Char :=
  'e' :: ((if e < 0 then ['-'] else if plus then ['+'] else []) ++ natChars e.natAbs)

/-- The characters of a numeral. -/
def chars (n : Numeral) (plus : Bool) : List Char :=
  (if n.negative then ['-'] else []) ++ natChars n.whole
    ++ (if n.fraction.isEmpty then [] else '.' :: n.fraction.map digitChar)
    ++ (match n.exponent with
      | none => []
      | some e => exponentChars plus e)

/-- The numeral of a size. -/
def ofNat (n : Nat) : Numeral := { whole := n }

/-! ### Reading -/

/-- A run of digits at the front, which must not be empty, and what follows it. -/
def readDigits? (cs : List Char) : Option (List Char × List Char) :=
  let run := cs.takeWhile Char.isDigit
  if run.isEmpty then none else some (run, cs.dropWhile Char.isDigit)

/-- The sign of an exponent: whether it is a minus, and what follows. -/
def readSign : List Char → Bool × List Char
  | '-' :: cs => (true, cs)
  | '+' :: cs => (false, cs)
  | cs => (false, cs)

/-- The whole part at the front, which has a leading zero only if it is zero. -/
def readWhole? (cs : List Char) : Option (Nat × List Char) := do
  let (run, rest) ← readDigits? cs
  if run.head? = some '0' ∧ run.length ≠ 1 then none
  else some (Nat.ofDigitChars 10 run 0, rest)

/-- The digits after a point at the front; none without a point. -/
def readFraction? : List Char → Option (List (Fin 10) × List Char)
  | '.' :: cs => do
    let (run, rest) ← readDigits? cs
    some (run.filterMap digit?, rest)
  | cs => some ([], cs)

/-- The exponent at the front, which must end the text. -/
def readExponent? : List Char → Option (Option Int)
  | [] => some none
  | c :: cs =>
    if c = 'e' ∨ c = 'E' then
      let (minus, cs) := readSign cs
      match readDigits? cs with
      | some (run, []) =>
        let size : Int := Nat.ofDigitChars 10 run 0
        some (some (if minus then -size else size))
      | _ => none
    else none

/-- The numeral that the characters write, if they are one. -/
def ofChars? (cs : List Char) : Option Numeral := do
  let (negative, cs) := match cs with
    | '-' :: cs => (true, cs)
    | cs => (false, cs)
  let (whole, cs) ← readWhole? cs
  let (fraction, cs) ← readFraction? cs
  let exponent ← readExponent? cs
  some { negative, whole, fraction, exponent }

/-- The size that a numeral writes: digits alone, within a machine word. -/
def toSize? (n : Numeral) (limit : Nat) : Option Nat :=
  if n.negative ∨ n.fraction ≠ [] ∨ n.exponent ≠ none ∨ limit ≤ n.whole then none else some n.whole

end Numeral

end ShardPlan
