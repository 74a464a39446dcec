import ShardPlan.Arithmetic.Checked
import ShardPlan.Decimal.Numeral

/-! # Doubles from numerals

A numeral is read with a significand of one machine word. Digits are taken as long as the
significand fits; whole digits beyond that only count as powers of ten, and fraction digits beyond
that are dropped. The significand is then scaled by powers of ten, with one rounding per step, so
the result is not always the double nearest to the numeral. A numeral beyond the largest double is
refused, one below the smallest is zero. -/

namespace ShardPlan

namespace Numeral

/-- The significand after the digits that fit, and the digits left over. -/
def accumulate (significand : Nat) : List (Fin 10) → Nat × List (Fin 10)
  | [] => (significand, [])
  | d :: ds =>
    if significand * 10 + d.val < wordLimit then accumulate (significand * 10 + d.val) ds
    else (significand, d :: ds)

/-- Ten to the power `n`, as the nearest double. -/
def tenTo (n : Nat) : Float := Float.ofScientific 1 false n

/-- `x` times ten to the power `e`, in steps of at most `10 ^ 308`. -/
def scale (x : Float) (e : Int) : Option Float :=
  if e.natAbs ≤ 308 then
    if e < 0 then some (x / tenTo e.natAbs)
    else if (x * tenTo e.natAbs).isInf then none else some (x * tenTo e.natAbs)
  else if x == 0.0 then some x
  else if e < 0 then scale (x / tenTo 308) (e + 308)
  else none
termination_by e.natAbs
decreasing_by omega

/-- The double that a numeral is read as. -/
def toDouble? (n : Numeral) : Option Float :=
  let (head, dropped) := accumulate 0 (digitsOf n.whole)
  let (significand, unread) := accumulate head n.fraction
  let shift : Int := dropped.length - (n.fraction.length - unread.length : Nat)
  (scale (Float.ofNat significand) (shift + n.exponent.getD 0)).map fun x =>
    if n.negative then -x else x

end Numeral

end ShardPlan
