import ShardPlan.Json.Token
import ShardPlan.Proofs.Decimal.Numerals
import ShardPlan.Proofs.Json.Literals

/-! # What spells a list of tokens

Characters spell tokens if reading them gives these tokens before whatever the rest gives (`Spells`). A word
or numeral is read as far as its characters go, so the rest must not go on with it (`EndsWord`). A mark, a
blank and a text literal end by themselves, so each can be put before anything that is spelt (`Spells.mark`,
`Spells.blanks`, `Spells.text`), and two spelt parts may follow each other if the second one ends a word
(`Spells.append`). -/

namespace ShardPlan

namespace Json

namespace Token

/-! ### One token -/

theorem mem_of_isBlank {c : Char} (h : isBlank c = true) : c ∈ [' ', '\t', '\n', '\r'] := by
  simpa [isBlank, or_assoc] using h

theorem mem_of_ofMark? {c : Char} {t : Token} (h : ofMark? c = some t) :
    c ∈ ['[', ']', '\x7b', '\x7d', ',', ':'] := by
  unfold ofMark? at h
  split_ifs at h <;> simp_all

theorem isWordChar_of_isBlank {c : Char} (h : isBlank c = true) : isWordChar c = false := by
  have hnone : [' ', '\t', '\n', '\r'].all (fun c => !isWordChar c) = true := by decide
  simpa using List.all_eq_true.mp hnone c (mem_of_isBlank h)

theorem isWordChar_of_ofMark? {c : Char} {t : Token} (h : ofMark? c = some t) :
    isWordChar c = false := by
  have hnone : ['[', ']', '\x7b', '\x7d', ',', ':'].all (fun c => !isWordChar c) = true := by decide
  simpa using List.all_eq_true.mp hnone c (mem_of_ofMark? h)

theorem isBlank_of_ofMark? {c : Char} {t : Token} (h : ofMark? c = some t) : isBlank c = false := by
  have hnone : ['[', ']', '\x7b', '\x7d', ',', ':'].all (fun c => !isBlank c) = true := by decide
  simpa using List.all_eq_true.mp hnone c (mem_of_ofMark? h)

theorem of_isWordChar {c : Char} (h : isWordChar c = true) :
    isBlank c = false ∧ ofMark? c = none ∧ c ≠ '"' := by
  refine ⟨Bool.eq_false_iff.mpr fun hblank => ?_,
    Option.eq_none_iff_forall_ne_some.mpr fun t ht => ?_, ?_⟩
  · rw [isWordChar_of_isBlank hblank] at h
    exact Bool.false_ne_true h
  · rw [isWordChar_of_ofMark? ht] at h
    exact Bool.false_ne_true h
  · rintro rfl
    exact absurd h (by decide)

theorem ofChars?_blank {c : Char} (h : isBlank c = true) (cs : List Char) :
    ofChars? (c :: cs) = ofChars? cs := by
  rw [ofChars?, if_pos h]

theorem ofChars?_mark {c : Char} {t : Token} (h : ofMark? c = some t) (cs : List Char) :
    ofChars? (c :: cs) = (ofChars? cs).map (t :: ·) := by
  rw [ofChars?, if_neg (by rw [isBlank_of_ofMark? h]; exact Bool.false_ne_true), h]

theorem ofChars?_quote (cs rest : List Char) : ofChars? (quote cs ++ rest) =
    (ofChars? rest).map (text (some (String.ofList cs)) :: ·) := by
  have hread : readUnits? (cs.flatMap escapeChar ++ ['"'] ++ rest) = some (cs.map Char.toNat, rest) := by
    rw [List.append_assoc]; exact readUnits?_escaped cs rest
  have hmark : ofMark? '"' = none := rfl
  unfold quote
  rw [List.cons_append, ofChars?, if_neg (by decide), hmark]
  dsimp only
  rw [if_pos rfl]
  split
  · next heq =>
    rw [hread] at heq
    cases heq
  · next units rest' heq =>
    rw [hread] at heq
    cases heq
    rw [textOfUnits?_map_toNat, Option.map_some]

/-- Nothing at the front goes on with a word. -/
def EndsWord (cs : List Char) : Prop := ∀ c ∈ cs.head?, isWordChar c = false

/-- **A word** is read as far as it goes. -/
theorem ofChars?_word {word rest : List Char} {t : Token} (hne : word ≠ [])
    (hword : ∀ c ∈ word, isWordChar c = true) (ht : ofWord? word = some t) (hrest : EndsWord rest) :
    ofChars? (word ++ rest) = (ofChars? rest).map (t :: ·) := by
  obtain ⟨c, cs, rfl⟩ := List.exists_cons_of_ne_nil hne
  obtain ⟨hc, hcs⟩ := List.forall_mem_cons.mp hword
  obtain ⟨hblank, hmark, hquote⟩ := of_isWordChar hc
  rw [List.cons_append, ofChars?, if_neg (by rw [hblank]; exact Bool.false_ne_true), hmark]
  dsimp only
  rw [if_neg hquote, if_pos hc, takeWhile_append_of_stop hcs hrest, dropWhile_append_of_stop hcs hrest,
    ht]

/-! ### Parts of a text -/

theorem EndsWord.nil : EndsWord [] := fun _ h => nomatch h

theorem EndsWord.mark {c : Char} {t : Token} (h : ofMark? c = some t) (cs : List Char) :
    EndsWord (c :: cs) := by
  rintro _ ⟨⟩
  exact isWordChar_of_ofMark? h

theorem EndsWord.blanks {bs cs : List Char} (hbs : ∀ c ∈ bs, isBlank c = true) (h : EndsWord cs) :
    EndsWord (bs ++ cs) := by
  cases bs with
  | nil => exact h
  | cons b bs =>
    rintro _ ⟨⟩
    exact isWordChar_of_isBlank (hbs b List.mem_cons_self)

theorem EndsWord.append {cs ds : List Char} (h : EndsWord cs) (h' : EndsWord ds) :
    EndsWord (cs ++ ds) := by
  cases cs with
  | nil => exact h'
  | cons c cs => exact h

/-- **The characters spell the tokens** before anything that ends a word. -/
def Spells (cs : List Char) (ts : List Token) : Prop :=
  ∀ rest, EndsWord rest → ofChars? (cs ++ rest) = (ofChars? rest).map (ts ++ ·)

namespace Spells

variable {cs ds : List Char} {ts us : List Token}

theorem nil : Spells [] [] := fun rest _ => by
  simp only [List.nil_append, Option.map_id']

theorem mark {c : Char} {t : Token} (ht : ofMark? c = some t) (h : Spells cs ts) :
    Spells (c :: cs) (t :: ts) := fun rest hrest => by
  rw [List.cons_append, ofChars?_mark ht, h rest hrest, Option.map_map]
  rfl

theorem blanks {bs : List Char} (hbs : ∀ c ∈ bs, isBlank c = true) (h : Spells cs ts) :
    Spells (bs ++ cs) ts := fun rest hrest => by
  induction bs with
  | nil => exact h rest hrest
  | cons b bs ih =>
    obtain ⟨hb, hbs⟩ := List.forall_mem_cons.mp hbs
    rw [List.cons_append, List.cons_append, ofChars?_blank hb]
    exact ih hbs

theorem text (s : String) (h : Spells cs ts) :
    Spells (quote s.toList ++ cs) (.text (some s) :: ts) := fun rest hrest => by
  rw [List.append_assoc, ofChars?_quote, h rest hrest, Option.map_map, String.ofList_toList]
  rfl

theorem word {t : Token} (hne : cs ≠ []) (hword : cs.all isWordChar = true)
    (ht : ofWord? cs = some t) : Spells cs [t] :=
  fun _ hrest => ofChars?_word hne (List.all_eq_true.mp hword) ht hrest

theorem null : Spells "null".toList [.null] := word (by decide) (by decide) rfl

theorem bool (b : Bool) : Spells (if b then "true" else "false").toList [.bool b] := by
  cases b with
  | true => exact word (by decide) (by decide) rfl
  | false => exact word (by decide) (by decide) rfl

/-- **Spelt parts follow each other** if the second one ends a word. -/
theorem append (h : Spells cs ts) (h' : Spells ds us) (hends : EndsWord ds) :
    Spells (cs ++ ds) (ts ++ us) := fun rest hrest => by
  rw [List.append_assoc, h _ (hends.append hrest), h' rest hrest, Option.map_map]
  simp only [Function.comp_def, List.append_assoc]

theorem ofChars?_eq (h : Spells cs ts) : ofChars? cs = some ts := by
  have hread := h [] .nil
  rw [List.append_nil, ofChars?, Option.map_some, List.append_nil] at hread
  exact hread

theorem number (n : Numeral) (plus : Bool) : Spells (n.chars plus) [.number n] := by
  refine word ?_ (List.all_eq_true.mpr fun c hc => ?_) ?_
  · intro hnil
    have hread := n.ofChars?_chars plus
    rw [hnil] at hread
    exact nomatch hread
  · rcases Numeral.isDigit_or_mem_of_mem_chars hc with hdigit | hmem
    · rw [isWordChar, Char.isAlphanum, hdigit]
      simp
    · have hword : ['-', '+', '.', 'e'].all isWordChar = true := by decide
      exact List.all_eq_true.mp hword c hmem
  · have hne : ∀ w ∈ ["null".toList, "true".toList, "false".toList], n.chars plus ≠ w := by
      intro w hw heq
      have hread := n.ofChars?_chars plus
      rw [heq] at hread
      have hnone : ∀ w ∈ ["null".toList, "true".toList, "false".toList],
          Numeral.ofChars? w = none := by decide
      rw [hnone w hw] at hread
      exact nomatch hread
    unfold ofWord?
    rw [if_neg (hne _ (by simp)), if_neg (hne _ (by simp)), if_neg (hne _ (by simp)),
      n.ofChars?_chars, Option.map_some]

end Spells

end Token

end Json

end ShardPlan
