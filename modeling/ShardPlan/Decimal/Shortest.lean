import ShardPlan.Decimal.Numeral

/-! # Shortest decimals of a double

A finite double is a mantissa times a power of two, and stands for the interval of the numbers that
round to it. Its shortest decimal is the point with the fewest digits in that interval, and among
those the nearest to the double. All arithmetic is exact. -/

namespace ShardPlan

/-- What a double is. -/
inductive Magnitude where
  | notANumber
  | infinite
  | finite (mantissa : Nat) (exponent : Int)
deriving DecidableEq, Repr

/-- The smallest mantissa of a double of full precision: two to the power 52. -/
def leadingBit : Nat := 4503599627370496

/-- The sign of a double, set for negative ones. -/
def signOfDouble (x : Float) : Bool := x.toBits.toNat >>> 63 == 1

/-- The magnitude of a double, from its bits. -/
def magnitudeOfDouble (x : Float) : Magnitude :=
  let bits := x.toBits.toNat
  let field := (bits >>> 52) % 2048
  let rest := bits % leadingBit
  if field = 2047 then if rest = 0 then .infinite else .notANumber
  else if field = 0 then .finite rest (-1074)
  else .finite (rest + leadingBit) (field - 1075)

/-- How to choose between two decimals that are equally near. -/
inductive Tie where
  /-- The larger one. -/
  | up
  /-- The one with the even last digit. -/
  | even
deriving DecidableEq, Repr

/-- The number `coefficient * 10 ^ exponent`. -/
structure Decimal where
  /-- The digits as a number. -/
  coefficient : Nat
  /-- The power of ten of the last digit. -/
  exponent : Int
deriving DecidableEq, Repr

namespace Decimal

/-- An interval of positive rationals with its centre, all over one denominator. -/
structure Interval where
  lower : Nat
  centre : Nat
  upper : Nat
  denominator : Nat
  /-- Whether the ends belong to the interval. -/
  closed : Bool

/-- The numbers that round to `mantissa * 2 ^ exponent`: half-way to the neighbours, with the ends if
the mantissa is even. The neighbour below a power of two is nearer by half. -/
def Interval.ofDouble (mantissa : Nat) (exponent : Int) : Interval :=
  let below := if mantissa = leadingBit ∧ -1074 < exponent then 1 else 2
  let scale := Nat.pow 2 (exponent - 2).toNat
  { lower := (4 * mantissa - below) * scale
    centre := 4 * mantissa * scale
    upper := (4 * mantissa + 2) * scale
    denominator := Nat.pow 2 (2 - exponent).toNat
    closed := mantissa % 2 = 0 }

/-- The decimals `c * 10 ^ grid` and their order against an interval. -/
def Interval.scaled (i : Interval) (grid : Int) : Interval :=
  let down := Nat.pow 10 (-grid).toNat
  { i with
    lower := i.lower * down
    centre := i.centre * down
    upper := i.upper * down
    denominator := i.denominator * Nat.pow 10 grid.toNat }

/-- Whether the whole number `c` lies in the interval. -/
def Interval.holds (i : Interval) (c : Nat) : Bool :=
  let x := c * i.denominator
  if i.closed then i.lower ≤ x && x ≤ i.upper else i.lower < x && x < i.upper

/-- The whole number of the interval that is next to its centre, if the interval has one. -/
def Interval.nearest? (i : Interval) (tie : Tie) : Option Nat :=
  let c := i.centre / i.denominator
  match i.holds c, i.holds (c + 1) with
  | false, false => none
  | true, false => some c
  | false, true => some (c + 1)
  | true, true =>
    let twice := 2 * i.centre
    let middle := (2 * c + 1) * i.denominator
    if twice < middle then some c
    else if middle < twice then some (c + 1)
    else if tie = .even ∧ c % 2 = 0 then some c else some (c + 1)

/-- No positive double lies below ten to the power of minus this. -/
def finest : Nat := 343

/-- The exponent of the first digit of the centre. -/
def Interval.leading (i : Interval) : Int :=
  ((Nat.toDigits 10 (i.centre * Nat.pow 10 finest / i.denominator)).length : Int) - (finest + 1)

/-- The shortest decimal that rounds to `mantissa * 2 ^ exponent`, for a positive mantissa: the
coarsest grid of powers of ten that meets the interval decides. -/
def shortest (mantissa : Nat) (exponent : Int) (tie : Tie) : Decimal :=
  let i := Interval.ofDouble mantissa exponent
  let grids := (List.range 18).map fun (n : Nat) => i.leading - n
  let found := grids.findSome? fun grid =>
    ((i.scaled grid).nearest? tie).map fun c => Decimal.mk c grid
  found.getD ⟨mantissa, exponent⟩

end Decimal

end ShardPlan
