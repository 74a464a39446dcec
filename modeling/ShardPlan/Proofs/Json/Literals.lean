import Mathlib.Tactic.SplitIfs
import ShardPlan.Json.Text

/-! # Text literals read back

A text is read back from its literal, whatever characters it has (`readUnits?_escaped`,
`textOfUnits?_map_toNat`). A character is written as itself, as a one-letter escape or as four hexadecimal
digits, and each way is read as the number of the character (`readUnits?_escapeChar`). No character is half of
a surrogate pair, so the numbers are the characters again. -/

namespace ShardPlan

namespace Json

/-! ### One character -/

theorem readUnits?_cons {c : Char} (hquote : c ≠ '"') (hbackslash : c ≠ '\\') (hcontrol : ¬c.toNat < 32)
    (cs : List Char) : readUnits? (c :: cs) = (readUnits? cs).map (Prod.map (c.toNat :: ·) id) := by
  rw [readUnits?, if_neg hcontrol]
  · exact hquote
  · exact fun _ _ _ _ _ h _ => hbackslash h
  · exact fun _ _ h _ => hbackslash h

theorem readUnits?_shortEscape {letter c : Char} (h : shortEscape? letter = some c) (cs : List Char) :
    readUnits? ('\\' :: letter :: cs) = (readUnits? cs).map (Prod.map (c.toNat :: ·) id) := by
  rw [readUnits?, h, Option.bind_some]
  -- the longer escapes start with a letter that is no escape by itself
  rintro _ _ _ _ _ rfl _
  exact nomatch (show none = some c from h)

theorem hexUnit?_hexChar : ∀ n < 32,
    hexUnit? '0' '0' (hexChar (n / 16)) (hexChar (n % 16)) = some n := by decide

/-- **The ways to write a character**: a one-letter escape, four hexadecimal digits, or itself. -/
theorem escapeChar_cases (c : Char) :
    (∃ letter, escapeChar c = ['\\', letter] ∧ shortEscape? letter = some c) ∨
      (c.toNat < 32 ∧ escapeChar c =
        ['\\', 'u', '0', '0', hexChar (c.toNat / 16), hexChar (c.toNat % 16)]) ∨
      (c ≠ '"' ∧ c ≠ '\\' ∧ ¬c.toNat < 32 ∧ escapeChar c = [c]) := by
  unfold escapeChar
  split_ifs with hquote hbackslash hb ht hn hf hr hcontrol
  · exact .inl ⟨'"', rfl, by rw [hquote]; rfl⟩
  · exact .inl ⟨'\\', rfl, by rw [hbackslash]; rfl⟩
  · exact .inl ⟨'b', rfl, by rw [hb]; rfl⟩
  · exact .inl ⟨'t', rfl, by rw [ht]; rfl⟩
  · exact .inl ⟨'n', rfl, by rw [hn]; rfl⟩
  · exact .inl ⟨'f', rfl, by rw [hf]; rfl⟩
  · exact .inl ⟨'r', rfl, by rw [hr]; rfl⟩
  · exact .inr (.inl ⟨hcontrol, rfl⟩)
  · exact .inr (.inr ⟨hquote, hbackslash, hcontrol, rfl⟩)

/-- **A written character** is read as its number. -/
theorem readUnits?_escapeChar (c : Char) (cs : List Char) :
    readUnits? (escapeChar c ++ cs) = (readUnits? cs).map (Prod.map (c.toNat :: ·) id) := by
  rcases escapeChar_cases c with ⟨letter, hwritten, hletter⟩ | ⟨hcontrol, hwritten⟩ |
    ⟨hquote, hbackslash, hcontrol, hwritten⟩
  · rw [hwritten]
    exact readUnits?_shortEscape hletter cs
  · rw [hwritten]
    simp only [List.cons_append, List.nil_append]
    rw [readUnits?, hexUnit?_hexChar c.toNat hcontrol, Option.bind_some]
  · rw [hwritten]
    exact readUnits?_cons hquote hbackslash hcontrol cs

/-! ### Whole texts -/

/-- **The literal of a text** is read as the numbers of its characters, up to its closing quote. -/
theorem readUnits?_escaped (cs rest : List Char) :
    readUnits? (cs.flatMap escapeChar ++ '"' :: rest) = some (cs.map Char.toNat, rest) := by
  induction cs with
  | nil => rfl
  | cons c cs ih =>
    rw [List.flatMap_cons, List.append_assoc, readUnits?_escapeChar, ih]
    rfl

/-- Only quotes, backslashes and control characters are escaped. -/
example : quote "a\"\\\n\x01é😀".toList = "\"a\\\"\\\\\\n\\u0001é😀\"".toList := by decide

theorem surrogate_ne (c : Char) : isLeading c.toNat = false ∧ isTrailing c.toNat = false := by
  have hvalid : c.toNat < 0xD800 ∨ 0xDFFF < c.toNat := c.valid.imp id And.left
  unfold isLeading isTrailing
  simp only [Bool.and_eq_false_imp, decide_eq_true_eq, decide_eq_false_iff_not]
  omega

theorem textOfUnits?_map_toNat : ∀ cs : List Char, textOfUnits? (cs.map Char.toNat) = some cs
  | [] => rfl
  | [c] => by
    obtain ⟨hleading, htrailing⟩ := surrogate_ne c
    simp only [List.map_cons, List.map_nil, textOfUnits?, hleading, htrailing, Bool.or_self,
      Bool.false_eq_true, if_false, Char.ofNat_toNat]
  | c :: d :: cs => by
    obtain ⟨hleading, htrailing⟩ := surrogate_ne c
    have hrest := textOfUnits?_map_toNat (d :: cs)
    rw [List.map_cons] at hrest
    simp only [List.map_cons, textOfUnits?, hleading, htrailing, Bool.false_eq_true, if_false, hrest,
      Option.map_some, Char.ofNat_toNat]

end Json

end ShardPlan
