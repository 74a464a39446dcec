/-! # Sizes of a machine word

Sizes are natural numbers below `wordLimit`. Products and sums are checked: a result that no longer
fits is a `Fault`, never a wrapped number. A product is taken from the left, starting at one, so
every partial product has to fit and not only the last one. -/

namespace ShardPlan

/-- One more than the largest size: two to the power 64. -/
def wordLimit : Nat := 18446744073709551616

/-- A step that cannot be carried out, whatever the rest of the input says. -/
inductive Fault where
  | productOverflow
  | sumOverflow
  | indexOutOfRange (length index : Nat)
  /-- A node was added before one of its arguments. -/
  | danglingArgument
deriving DecidableEq, Repr

/-- The text that reports a fault. -/
def Fault.message : Fault → String
  | productOverflow => "attempt to multiply with overflow"
  | sumOverflow => "attempt to add with overflow"
  | indexOutOfRange length index =>
    s!"index out of bounds: the len is {length} but the index is {index}"
  | danglingArgument => "node args must refer to nodes added before"

/-- A value, or the fault that prevents it. -/
abbrev Checked := Except Fault

namespace Size

/-- The product of two sizes. -/
def mul (a b : Nat) : Checked Nat :=
  if a * b < wordLimit then .ok (a * b) else .error .productOverflow

/-- The size after `a`. -/
def succ (a : Nat) : Checked Nat :=
  if a + 1 < wordLimit then .ok (a + 1) else .error .sumOverflow

/-- The product of a list of sizes, from the left. -/
def product (sizes : List Nat) : Checked Nat := sizes.foldlM mul 1

/-- The product of a list of sizes as a number without bound. -/
def volume : List Nat → Nat
  | [] => 1
  | n :: sizes => n * volume sizes

theorem mul_eq_ok {a b : Nat} (h : a * b < wordLimit) : mul a b = .ok (a * b) := if_pos h

theorem foldlM_mul_of_ok {sizes : List Nat} {a n : Nat} (h : sizes.foldlM mul a = .ok n) :
    n = a * volume sizes := by
  induction sizes generalizing a with
  | nil => simpa [volume, pure, Except.pure, eq_comm] using h
  | cons b sizes ih =>
    rw [List.foldlM_cons] at h
    unfold mul at h
    split at h
    · rw [ih h, volume, Nat.mul_assoc]
    · exact nomatch h

/-- A product that fits is the product of the numbers. -/
theorem volume_of_product {sizes : List Nat} {n : Nat} (h : product sizes = .ok n) :
    n = volume sizes := by
  rw [foldlM_mul_of_ok h, Nat.one_mul]

theorem foldlM_mul_lt {sizes : List Nat} {a n : Nat} (ha : a < wordLimit)
    (h : sizes.foldlM mul a = .ok n) : n < wordLimit := by
  induction sizes generalizing a with
  | nil => exact (Except.ok.inj h) ▸ ha
  | cons b sizes ih =>
    rw [List.foldlM_cons] at h
    unfold mul at h
    split at h
    · rename_i hab
      exact ih hab h
    · exact nomatch h

/-- A product that is computed fits a machine word. -/
theorem product_lt {sizes : List Nat} {n : Nat} (h : product sizes = .ok n) : n < wordLimit :=
  foldlM_mul_lt (by decide) h

end Size

end ShardPlan
