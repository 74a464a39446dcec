import ShardPlan.Decimal.Shortest

/-! # Notations of a double

A notation settles how the shortest decimal of a double is written: which magnitudes have their
digits around a point, and how the others show their exponent. -/

namespace ShardPlan

/-- The choices of a notation for doubles. -/
structure Notation where
  tie : Tie
  /-- The smallest exponent of a first digit that is written around a point. -/
  fixedFrom : Int
  /-- The smallest exponent of a first digit that is too large for that. -/
  fixedBelow : Int
  /-- Whether positive exponents show a plus sign. -/
  plus : Bool

namespace Notation

/-- Doubles in messages. -/
def message : Notation := ⟨.up, -4, 16, false⟩

/-- Doubles in stored data. -/
def data : Notation := ⟨.even, -5, 16, true⟩

/-- The digits `ds` with the first one at the power `k` of ten, as a numeral. -/
def numeralOfDigits (s : Notation) (negative : Bool) (ds : List (Fin 10)) (k : Int) : Numeral :=
  let value (ds : List (Fin 10)) : Nat := ds.foldl (fun n d => n * 10 + d.val) 0
  if s.fixedFrom ≤ k ∧ k < s.fixedBelow then
    if k < 0 then
      { negative, whole := 0, fraction := List.replicate (-k - 1).toNat 0 ++ ds }
    else
      let places := k.toNat + 1
      let fraction := ds.drop places
      { negative
        whole := value (ds.take places) * Nat.pow 10 (places - ds.length)
        fraction := if fraction.isEmpty then [0] else fraction }
  else { negative, whole := value (ds.take 1), fraction := ds.drop 1, exponent := some k }

/-- The numeral of a finite double; none for the others. -/
def numeral? (s : Notation) (x : Float) : Option Numeral :=
  match magnitudeOfDouble x with
  | .finite 0 _ => some { negative := signOfDouble x, whole := 0, fraction := [0] }
  | .finite mantissa exponent =>
    let d := Decimal.shortest mantissa exponent s.tie
    let all := Numeral.digitsOf d.coefficient
    let ds := (all.reverse.dropWhile (· = 0)).reverse
    some (s.numeralOfDigits (signOfDouble x) ds (d.exponent + all.length - 1))
  | _ => none

/-- The text of a double. -/
def text (s : Notation) (x : Float) : String :=
  match s.numeral? x with
  | some n => String.ofList (n.chars s.plus)
  | none =>
    if magnitudeOfDouble x = .notANumber then "NaN" else if signOfDouble x then "-inf" else "inf"

end Notation

end ShardPlan
