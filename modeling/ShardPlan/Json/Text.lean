/-! # Text literals

A text literal stands between two quotes. A quote, a backslash and the control characters are
escaped when written; reading takes every escape of the data format. An escape may name half of a
surrogate pair: a literal whose halves do not pair up is well formed, but it is no text. -/

namespace ShardPlan

namespace Json

/-! ### Writing -/

/-- The lower-case hexadecimal digit of a number below sixteen. -/
def hexChar (n : Nat) : Char := Nat.digitChar n

/-- The characters that write one character of a text. -/
def escapeChar (c : Char) : List Char :=
  if c = '"' then ['\\', '"']
  else if c = '\\' then ['\\', '\\']
  else if c = '\x08' then ['\\', 'b']
  else if c = '\t' then ['\\', 't']
  else if c = '\n' then ['\\', 'n']
  else if c = '\x0c' then ['\\', 'f']
  else if c = '\r' then ['\\', 'r']
  else if c.toNat < 32 then
    ['\\', 'u', '0', '0', hexChar (c.toNat / 16), hexChar (c.toNat % 16)]
  else [c]

/-- The literal of a text, with its quotes. -/
def quote (cs : List Char) : List Char := '"' :: (cs.flatMap escapeChar ++ ['"'])

/-! ### Reading -/

/-- The value of a hexadecimal digit. -/
def hexDigit? (c : Char) : Option Nat :=
  if c.isDigit then some (c.toNat - 48)
  else if 'a' ≤ c ∧ c ≤ 'f' then some (c.toNat - 87)
  else if 'A' ≤ c ∧ c ≤ 'F' then some (c.toNat - 55)
  else none

/-- The number that four hexadecimal digits write. -/
def hexUnit? (a b c d : Char) : Option Nat := do
  let a ← hexDigit? a
  let b ← hexDigit? b
  let c ← hexDigit? c
  let d ← hexDigit? d
  some (((a * 16 + b) * 16 + c) * 16 + d)

/-- The character that a one-letter escape names. -/
def shortEscape? (c : Char) : Option Char :=
  if c = '"' ∨ c = '\\' ∨ c = '/' then some c
  else if c = 'b' then some '\x08'
  else if c = 'f' then some '\x0c'
  else if c = 'n' then some '\n'
  else if c = 'r' then some '\r'
  else if c = 't' then some '\t'
  else none

/-- The code units of a literal up to its closing quote, and what follows it. -/
def readUnits? : List Char → Option (List Nat × List Char)
  | [] => none
  | '"' :: cs => some ([], cs)
  | '\\' :: 'u' :: a :: b :: c :: d :: cs =>
    (hexUnit? a b c d).bind fun unit => (readUnits? cs).map (Prod.map (unit :: ·) id)
  | '\\' :: c :: cs =>
    (shortEscape? c).bind fun c => (readUnits? cs).map (Prod.map (c.toNat :: ·) id)
  | c :: cs => if c.toNat < 32 then none else (readUnits? cs).map (Prod.map (c.toNat :: ·) id)

/-- Reading a literal leaves less than it was given. -/
theorem length_lt_of_readUnits? {cs : List Char} {units : List Nat} {rest : List Char}
    (h : readUnits? cs = some (units, rest)) : rest.length < cs.length := by
  fun_induction readUnits? cs generalizing units with
  | case1 => exact nomatch h
  | case2 cs => cases h; exact Nat.lt_succ_self _
  | case3 a b c d cs ih =>
    obtain ⟨unit, -, h⟩ := Option.bind_eq_some_iff.mp h
    obtain ⟨r, hr, hrest⟩ := Option.map_eq_some_iff.mp h
    cases hrest
    exact Nat.lt_of_lt_of_le (ih hr) (by simp only [List.length_cons]; omega)
  | case4 c cs _ ih =>
    obtain ⟨unit, -, h⟩ := Option.bind_eq_some_iff.mp h
    obtain ⟨r, hr, hrest⟩ := Option.map_eq_some_iff.mp h
    cases hrest
    exact Nat.lt_of_lt_of_le (ih hr) (by simp only [List.length_cons]; omega)
  | case5 => exact nomatch h
  | case6 c cs _ _ _ _ ih =>
    obtain ⟨r, hr, hrest⟩ := Option.map_eq_some_iff.mp h
    cases hrest
    exact Nat.lt_succ_of_lt (ih hr)

/-- Whether a code unit is the first half of a surrogate pair. -/
def isLeading (u : Nat) : Bool := 0xD800 ≤ u && u < 0xDC00

/-- Whether a code unit is the second half of a surrogate pair. -/
def isTrailing (u : Nat) : Bool := 0xDC00 ≤ u && u < 0xE000

/-- The text of code units, if the surrogate halves among them pair up. -/
def textOfUnits? : List Nat → Option (List Char)
  | [] => some []
  | [u] => if isLeading u || isTrailing u then none else some [Char.ofNat u]
  | u :: v :: units =>
    if isLeading u then
      if isTrailing v then
        (textOfUnits? units).map (Char.ofNat (0x10000 + (u - 0xD800) * 0x400 + (v - 0xDC00)) :: ·)
      else none
    else if isTrailing u then none
    else (textOfUnits? (v :: units)).map (Char.ofNat u :: ·)

end Json

end ShardPlan
