import ShardPlan.Decimal.Numeral

/-! # Numerals read back

What a numeral writes is read as the same numeral, with or without a plus sign before its exponent
(`ofChars?_chars`). Each part is read up to the first character that cannot belong to it: digits up to one
that is no digit, a fraction up to the `e`, the exponent up to the end. The whole part is accepted since no
number but zero starts with a zero. -/

namespace ShardPlan

/-! ### Runs at the front -/

section Runs

variable {α : Type} {has : α → Bool} {run rest : List α} (hrun : ∀ c ∈ run, has c = true)
  (hrest : ∀ c ∈ rest.head?, has c = false)
include hrun hrest

/-- **A run stops** before the first element without the property. -/
theorem takeWhile_append_of_stop : (run ++ rest).takeWhile has = run := by
  rw [List.takeWhile_append_of_pos hrun]
  cases rest with
  | nil => exact List.append_nil run
  | cons c rest => rw [List.takeWhile_cons_of_neg (by simp [hrest c rfl]), List.append_nil]

theorem dropWhile_append_of_stop : (run ++ rest).dropWhile has = rest := by
  rw [List.dropWhile_append_of_pos hrun]
  cases rest with
  | nil => rfl
  | cons c rest => rw [List.dropWhile_cons_of_neg (by simp [hrest c rfl])]

end Runs

/-! ### Numbers -/

theorem isDigit_of_mem_digits {n : Nat} {c : Char} (h : c ∈ Nat.toDigits 10 n) : c.isDigit = true :=
  Nat.isDigit_of_mem_toDigits (by omega) (by omega) h

theorem digits_injective {m n : Nat} (h : Nat.toDigits 10 m = Nat.toDigits 10 n) : m = n := by
  rw [← Nat.ofDigitChars_ten_toDigits (n := m), h, Nat.ofDigitChars_ten_toDigits]

theorem eq_zero_of_head_digits {n : Nat} (h : (Nat.toDigits 10 n).head? = some '0') : n = 0 := by
  induction n using Nat.strongRecOn with
  | ind n ih =>
    by_cases hsmall : n < 10
    · rw [Nat.toDigits_of_lt_base hsmall] at h
      simpa using h
    · rw [Nat.toDigits_of_base_le (by omega) (by omega), List.head?_append] at h
      have hne : Nat.toDigits 10 (n / 10) ≠ [] := Nat.toDigits_ne_nil
      have hhead : (Nat.toDigits 10 (n / 10)).head? = some '0' := by
        cases hd : Nat.toDigits 10 (n / 10) with
        | nil => exact absurd hd hne
        | cons c rest => rw [hd] at h; simpa using h
      have := ih (n / 10) (by omega) hhead
      omega

namespace Numeral

theorem exists_natChars (n : Nat) : ∃ c cs, natChars n = c :: cs ∧ c.isDigit = true := by
  obtain ⟨c, cs, h⟩ := List.exists_cons_of_ne_nil (Nat.toDigits_ne_nil (n := n) (b := 10))
  exact ⟨c, cs, h, isDigit_of_mem_digits (h ▸ List.mem_cons_self)⟩

theorem isDigit_digitChar (d : Fin 10) : (digitChar d).isDigit = true := by
  revert d; decide

theorem digit?_digitChar (d : Fin 10) : digit? (digitChar d) = some d := by
  revert d; decide

/-! ### The parts -/

/-- **Digits are read** up to the first character that is no digit. -/
theorem readDigits?_append {run rest : List Char} (hne : run ≠ [])
    (hrun : ∀ c ∈ run, c.isDigit = true) (hrest : ∀ c ∈ rest.head?, c.isDigit = false) :
    readDigits? (run ++ rest) = some (run, rest) := by
  unfold readDigits?
  rw [takeWhile_append_of_stop hrun hrest, dropWhile_append_of_stop hrun hrest]
  exact if_neg (by simpa using hne)

theorem readDigits?_natChars (n : Nat) {rest : List Char}
    (hrest : ∀ c ∈ rest.head?, c.isDigit = false) :
    readDigits? (natChars n ++ rest) = some (natChars n, rest) :=
  readDigits?_append Nat.toDigits_ne_nil (fun _ hc => isDigit_of_mem_digits hc) hrest

theorem readWhole?_natChars (n : Nat) {rest : List Char}
    (hrest : ∀ c ∈ rest.head?, c.isDigit = false) :
    readWhole? (natChars n ++ rest) = some (n, rest) := by
  have hzeros : ¬((natChars n).head? = some '0' ∧ (natChars n).length ≠ 1) := by
    rintro ⟨hzero, hlength⟩
    obtain rfl := eq_zero_of_head_digits hzero
    exact hlength rfl
  have hvalue : Nat.ofDigitChars 10 (natChars n) 0 = n := Nat.ofDigitChars_ten_toDigits
  unfold readWhole?
  rw [readDigits?_natChars n hrest, Option.bind_eq_bind, Option.bind_some]
  dsimp only
  rw [if_neg hzeros, hvalue]

/-- The characters of the digits after a point. -/
def fractionChars (ds : List (Fin 10)) : List Char :=
  if ds.isEmpty then [] else '.' :: ds.map digitChar

/-- **A fraction is read** up to the first character that is neither a point nor a digit. -/
theorem readFraction?_fractionChars (ds : List (Fin 10)) {rest : List Char}
    (hrest : ∀ c ∈ rest.head?, c ≠ '.' ∧ c.isDigit = false) :
    readFraction? (fractionChars ds ++ rest) = some (ds, rest) := by
  cases ds with
  | nil =>
    unfold readFraction?
    split
    · next cs heq =>
      have heq : rest = '.' :: cs := heq
      exact absurd rfl (hrest '.' (by rw [heq]; rfl)).1
    · rfl
  | cons d ds =>
    have hdigits : ∀ c ∈ (d :: ds).map digitChar, c.isDigit = true := by
      intro c hc
      obtain ⟨d, -, rfl⟩ := List.mem_map.mp hc
      exact isDigit_digitChar d
    have hback : ((d :: ds).map digitChar).filterMap digit? = d :: ds := by
      have hinverse : digit? ∘ digitChar = some := funext digit?_digitChar
      rw [List.filterMap_map, hinverse, List.filterMap_some]
    have hread : readDigits? ((d :: ds).map digitChar ++ rest) =
        some ((d :: ds).map digitChar, rest) :=
      readDigits?_append (by simp) hdigits fun c hc => (hrest c hc).2
    change (readDigits? ((d :: ds).map digitChar ++ rest)).bind _ = _
    rw [hread, Option.bind_some]
    dsimp only
    rw [hback]

/-- The characters of an exponent, if one is written. -/
def writtenExponent (plus : Bool) : Option Int → List Char
  | none => []
  | some e => exponentChars plus e

theorem readSign_append (plus : Bool) (e : Int) :
    readSign ((if e < 0 then ['-'] else if plus then ['+'] else []) ++ natChars e.natAbs) =
      (decide (e < 0), natChars e.natAbs) := by
  by_cases hneg : e < 0
  · rw [if_pos hneg, decide_eq_true hneg]; rfl
  · rw [if_neg hneg, decide_eq_false hneg]
    cases plus with
    | true => rfl
    | false =>
      -- without a sign the first character is a digit, which is read as no sign either
      obtain ⟨c, cs, hchars, hdigit⟩ := exists_natChars e.natAbs
      rw [if_neg Bool.false_ne_true, hchars, List.nil_append]
      unfold readSign
      split
      · next heq => rw [(List.cons.inj heq).1] at hdigit; exact absurd hdigit (by decide)
      · next heq => rw [(List.cons.inj heq).1] at hdigit; exact absurd hdigit (by decide)
      · rfl

theorem readExponent?_writtenExponent (plus : Bool) (e : Option Int) :
    readExponent? (writtenExponent plus e) = some e := by
  cases e with
  | none => rfl
  | some e =>
    have hread : readDigits? (natChars e.natAbs ++ []) = some (natChars e.natAbs, []) :=
      readDigits?_natChars e.natAbs nofun
    rw [List.append_nil] at hread
    have hsize : Nat.ofDigitChars 10 (natChars e.natAbs) 0 = e.natAbs :=
      Nat.ofDigitChars_ten_toDigits
    unfold readExponent? writtenExponent exponentChars
    simp only [true_or, if_true, readSign_append, hread, hsize]
    by_cases hneg : e < 0
    · rw [if_pos (decide_eq_true hneg), Int.ofNat_natAbs_of_nonpos (Int.le_of_lt hneg), Int.neg_neg]
    · rw [if_neg (by simpa using hneg), Int.natAbs_of_nonneg (Int.not_lt.mp hneg)]

/-! ### Numerals -/

theorem chars_eq (n : Numeral) (plus : Bool) : n.chars plus = (if n.negative then ['-'] else []) ++
    (natChars n.whole ++ (fractionChars n.fraction ++ writtenExponent plus n.exponent)) := by
  have hparts : n.chars plus = (if n.negative then ['-'] else []) ++ natChars n.whole
      ++ fractionChars n.fraction ++ writtenExponent plus n.exponent := rfl
  rw [hparts, List.append_assoc, List.append_assoc]

theorem isDigit_or_mem_of_mem_chars {n : Numeral} {plus : Bool} {c : Char} (h : c ∈ n.chars plus) :
    c.isDigit = true ∨ c ∈ ['-', '+', '.', 'e'] := by
  have hnat : ∀ {m : Nat}, c ∈ natChars m → c.isDigit = true ∨ c ∈ ['-', '+', '.', 'e'] :=
    fun h => .inl (isDigit_of_mem_digits h)
  rw [chars_eq, List.mem_append, List.mem_append, List.mem_append] at h
  rcases h with h | h | h | h
  · split at h
    · exact .inr (by simp_all)
    · exact nomatch h
  · exact hnat h
  · unfold fractionChars at h
    split at h
    · exact nomatch h
    · rcases List.mem_cons.mp h with rfl | h
      · exact .inr (by decide)
      · obtain ⟨d, -, rfl⟩ := List.mem_map.mp h
        exact .inl (isDigit_digitChar d)
  · unfold writtenExponent exponentChars at h
    split at h
    · exact nomatch h
    · rcases List.mem_cons.mp h with rfl | h
      · exact .inr (by decide)
      · rcases List.mem_append.mp h with h | h
        · split at h
          · exact .inr (by simp_all)
          · split at h
            · exact .inr (by simp_all)
            · exact nomatch h
        · exact hnat h

/-- **A numeral reads back** as itself. -/
theorem ofChars?_chars (n : Numeral) (plus : Bool) : ofChars? (n.chars plus) = some n := by
  obtain ⟨negative, whole, fraction, exponent⟩ := n
  have hexponent : ∀ c ∈ (writtenExponent plus exponent).head?, c = 'e' := by
    cases exponent with
    | none => simp [writtenExponent]
    | some e => simp [writtenExponent, exponentChars]
  have hfraction : ∀ c ∈ (fractionChars fraction ++ writtenExponent plus exponent).head?,
      c.isDigit = false := by
    cases fraction with
    | nil => intro c hc; rw [hexponent c hc]; rfl
    | cons d ds => intro c hc; cases hc; rfl
  have hread := readWhole?_natChars whole hfraction
  have hread' := readFraction?_fractionChars fraction fun c hc => by
    rw [hexponent c hc]; decide
  rw [chars_eq]
  unfold ofChars?
  cases negative with
  | true =>
    rw [if_pos rfl, List.cons_append, List.nil_append]
    simp only [hread, hread', readExponent?_writtenExponent, Option.bind_eq_bind, Option.bind_some]
  | false =>
    rw [if_neg Bool.false_ne_true, List.nil_append]
    split
    next minus cs hsign =>
    split at hsign
    · next heq =>
      obtain ⟨c, cs, hchars, hdigit⟩ := exists_natChars whole
      rw [hchars] at heq
      rw [(List.cons.inj heq).1] at hdigit
      exact absurd hdigit (by decide)
    · cases hsign
      simp only [hread, hread', readExponent?_writtenExponent, Option.bind_eq_bind, Option.bind_some]

end Numeral

end ShardPlan
