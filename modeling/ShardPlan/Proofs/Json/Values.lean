import ShardPlan.Json.Value
import ShardPlan.Proofs.Json.Tokens

/-! # Values read back

A written value is read as itself, in every style whose line breaks and gaps are blanks (`ofChars?_chars`), if
each of its literals is a text (`IsProper`): a literal that is no text is written as the empty one. Between the
characters and the value stand its tokens. What is written spells them (`spells_chars`), and they lead the
reader from where a value is due to where this value is complete, whatever is open around it
(`leads_tokens`). -/

namespace ShardPlan

namespace Json

namespace Value

/-! ### The tokens of a value -/

mutual

/-- The tokens that write a value. -/
def tokens : Value → List Token
  | null => [.null]
  | bool b => [.bool b]
  | number n => [.number n]
  | text s => [.text s]
  | array [] => [.openArray, .closeArray]
  | array (v :: vs) => .openArray :: (v.tokens ++ (elementTokens vs ++ [.closeArray]))
  | object [] => [.openObject, .closeObject]
  | object ((k, v) :: fields) =>
    .openObject :: .text k :: .colon :: (v.tokens ++ (fieldTokens fields ++ [.closeObject]))

/-- The tokens of further elements, each after a comma. -/
def elementTokens : List Value → List Token
  | [] => []
  | v :: vs => .comma :: (v.tokens ++ elementTokens vs)

/-- The tokens of further fields, each after a comma. -/
def fieldTokens : List (Option String × Value) → List Token
  | [] => []
  | (k, v) :: fields => .comma :: .text k :: .colon :: (v.tokens ++ fieldTokens fields)

end

/-! ### Reading the tokens -/

/-- **The tokens lead** from one state to another. -/
def Leads (r : Reading) (ts : List Token) (r' : Reading) : Prop :=
  ts.foldlM Reading.step r = some r'

namespace Leads

variable {r r' r'' : Reading} {t : Token} {ts us : List Token}

theorem nil : Leads r [] r := rfl

theorem cons (ht : r.step t = some r') (h : Leads r' ts r'') : Leads r (t :: ts) r'' := by
  unfold Leads
  rw [List.foldlM_cons, ht]
  exact h

theorem append (h : Leads r ts r') (h' : Leads r' us r'') : Leads r (ts ++ us) r'' := by
  unfold Leads at h ⊢
  rw [List.foldlM_append, h]
  exact h'

/-- Where a first element is due, the tokens of a value are read as anywhere else: none of them closes
the array. -/
theorem firstElement {v : Value} {opened : List Open}
    (h : Leads (.value (.array [] :: opened)) v.tokens r) : Leads (.firstElement opened) v.tokens r := by
  cases v with
  | null => exact h
  | bool b => exact h
  | number n => exact h
  | text s => exact h
  | array vs =>
    cases vs with
    | nil => exact h
    | cons v vs => exact h
  | object fields =>
    cases fields with
    | nil => exact h
    | cons field fields => exact h

end Leads

mutual

/-- **The tokens of a value** lead from where it is due to where it is complete. -/
theorem leads_tokens : ∀ (v : Value) (opened : List Open),
    Leads (.value opened) v.tokens (.complete opened v)
  | null, _ => .cons rfl .nil
  | bool _, _ => .cons rfl .nil
  | number _, _ => .cons rfl .nil
  | text _, _ => .cons rfl .nil
  | array [], _ => .cons rfl (.cons rfl .nil)
  | array (v :: vs), opened => by
    have hfirst := (leads_tokens v (.array [] :: opened)).firstElement
    have hothers := leads_elementTokens vs v [] opened
    exact .cons rfl (hfirst.append hothers)
  | object [], _ => .cons rfl (.cons rfl .nil)
  | object ((k, v) :: fields), opened => by
    have hfirst := leads_tokens v (.object [] k :: opened)
    have hothers := leads_fieldTokens fields k v [] opened
    exact .cons rfl (.cons rfl (.cons rfl (hfirst.append hothers)))

/-- Further elements and the end of the array lead from an element to the array. -/
theorem leads_elementTokens : ∀ (vs : List Value) (v : Value) (before : List Value)
    (opened : List Open),
    Leads (.complete (.array before :: opened) v) (elementTokens vs ++ [.closeArray])
      (.complete opened (.array (before.reverse ++ v :: vs)))
  | [], v, before, opened => by
    rw [← List.reverse_cons]
    exact .cons rfl .nil
  | w :: vs, v, before, opened => by
    -- the complete element joins those before the next one, which stand last first
    have hnext := leads_tokens w (.array (v :: before) :: opened)
    have hothers := leads_elementTokens vs w (v :: before) opened
    rw [List.reverse_cons, List.append_assoc] at hothers
    rw [elementTokens, List.cons_append, List.append_assoc]
    exact .cons rfl (hnext.append hothers)

theorem leads_fieldTokens : ∀ (fields : List (Option String × Value)) (k : Option String)
    (v : Value) (before : List (Option String × Value)) (opened : List Open),
    Leads (.complete (.object before k :: opened) v) (fieldTokens fields ++ [.closeObject])
      (.complete opened (.object (before.reverse ++ (k, v) :: fields)))
  | [], k, v, before, opened => by
    rw [← List.reverse_cons]
    exact .cons rfl .nil
  | (l, w) :: fields, k, v, before, opened => by
    have hnext := leads_tokens w (.object ((k, v) :: before) l :: opened)
    have hothers := leads_fieldTokens fields l w ((k, v) :: before) opened
    rw [List.reverse_cons, List.append_assoc] at hothers
    rw [fieldTokens, List.cons_append, List.cons_append, List.cons_append, List.append_assoc]
    exact .cons rfl (.cons rfl (.cons rfl (hnext.append hothers)))

end

/-- **A value is read** from its tokens. -/
theorem ofTokens?_tokens (v : Value) : ofTokens? v.tokens = some v := by
  have hrun : v.tokens.foldlM Reading.step (.value []) = some (.complete [] v) := leads_tokens v []
  unfold ofTokens?
  rw [hrun]
  rfl

/-! ### Spelling the tokens -/

/-- **Every literal of the value is a text.** -/
inductive IsProper : Value → Prop
  | null : IsProper .null
  | bool (b : Bool) : IsProper (.bool b)
  | number (n : Numeral) : IsProper (.number n)
  | text (s : String) : IsProper (.text (some s))
  | array {vs : List Value} (helements : ∀ v ∈ vs, IsProper v) : IsProper (.array vs)
  | object {fields : List (Option String × Value)} (hkeys : ∀ e ∈ fields, ∃ key, e.1 = some key)
    (hvalues : ∀ e ∈ fields, IsProper e.2) : IsProper (.object fields)

/-- What stands between the tokens is blank. -/
structure Style.IsBlank (style : Style) : Prop where
  lineBreak : ∀ depth, ∀ c ∈ style.lineBreak depth, Token.isBlank c = true
  afterColon : ∀ c ∈ style.afterColon, Token.isBlank c = true

theorem Style.isBlank_compact : Style.compact.IsBlank where
  lineBreak _ _ h := nomatch h
  afterColon _ h := nomatch h

theorem Style.isBlank_indented : Style.indented.IsBlank where
  lineBreak depth c h := by
    rcases List.mem_cons.mp h with rfl | h
    · rfl
    · rw [List.eq_of_mem_replicate h]
      rfl
  afterColon c h := by
    rw [List.mem_singleton.mp h]
    rfl

theorem isProper_text_iff {s : Option String} : (text s).IsProper ↔ ∃ t, s = some t :=
  ⟨fun h => match h with | .text t => ⟨t, rfl⟩, fun ⟨t, ht⟩ => ht ▸ .text t⟩

theorem isProper_array_iff {vs : List Value} : (array vs).IsProper ↔ ∀ v ∈ vs, v.IsProper :=
  ⟨fun h => match h with | .array helements => helements, .array⟩

theorem isProper_object_iff {fields : List (Option String × Value)} : (object fields).IsProper ↔
    ∀ e ∈ fields, (∃ key, e.1 = some key) ∧ e.2.IsProper := by
  constructor
  · rintro (_ | _ | _ | _ | _ | ⟨hkeys, hvalues⟩) e he
    exact ⟨hkeys e he, hvalues e he⟩
  · exact fun h => .object (fun e he => (h e he).1) fun e he => (h e he).2

theorem endsWord_elementChars (style : Style) (depth : Nat) (vs : List Value) :
    Token.EndsWord (elementChars style depth vs) := by
  cases vs with
  | nil => exact .nil
  | cons v vs => exact .mark rfl _

theorem endsWord_fieldChars (style : Style) (depth : Nat) (fields : List (Option String × Value)) :
    Token.EndsWord (fieldChars style depth fields) := by
  cases fields with
  | nil => exact .nil
  | cons field fields => exact .mark rfl _

section Spelling

variable {style : Style} (hstyle : style.IsBlank)
include hstyle

theorem spells_key (key : String) {cs : List Char} {ts : List Token} (h : Token.Spells cs ts) :
    Token.Spells (textChars (some key) ++ (':' :: (style.afterColon ++ cs)))
      (.text (some key) :: .colon :: ts) :=
  .text key (.mark rfl (.blanks hstyle.afterColon h))

theorem spells_close {c : Char} {t : Token} (ht : Token.ofMark? c = some t) (depth : Nat)
    {cs : List Char} {ts : List Token} (h : Token.Spells cs ts) :
    Token.Spells (cs ++ (style.lineBreak depth ++ [c])) (ts ++ [t]) :=
  h.append (.blanks (hstyle.lineBreak depth) (.mark ht .nil))
    (.blanks (hstyle.lineBreak depth) (.mark ht []))

mutual

/-- **A written value spells** its tokens. -/
theorem spells_chars : ∀ (v : Value), v.IsProper → ∀ depth,
    Token.Spells (v.chars style depth) v.tokens
  | null, _, _ => .null
  | bool b, _, _ => .bool b
  | number n, _, _ => .number n true
  | text s, h, _ => by
    obtain ⟨s, rfl⟩ := isProper_text_iff.mp h
    have hliteral := Token.Spells.text s .nil
    rw [List.append_nil] at hliteral
    exact hliteral
  | array [], _, _ => .mark rfl (.mark rfl .nil)
  | array (v :: vs), h, depth => by
    obtain ⟨hv, hvs⟩ := List.forall_mem_cons.mp (isProper_array_iff.mp h)
    -- the value stands before a comma, a line break or the bracket, and each of these ends a word
    have hfirst := spells_chars v hv (depth + 1)
    have hothers := spells_elementChars vs hvs (depth + 1)
    have hclose : Token.ofMark? ']' = some .closeArray := rfl
    have hall := spells_close hstyle hclose depth
      (hfirst.append hothers (endsWord_elementChars style (depth + 1) vs))
    rw [List.append_assoc, List.append_assoc] at hall
    rw [chars, List.append_assoc]
    exact .mark rfl (.blanks (hstyle.lineBreak (depth + 1)) hall)
  | object [], _, _ => .mark rfl (.mark rfl .nil)
  | object ((k, v) :: fields), h, depth => by
    obtain ⟨⟨⟨key, rfl⟩, hv⟩, hfields⟩ := List.forall_mem_cons.mp (isProper_object_iff.mp h)
    have hfirst := spells_chars v hv (depth + 1)
    have hothers := spells_fieldChars fields hfields (depth + 1)
    have hclose : Token.ofMark? '\x7d' = some .closeObject := rfl
    have hall := spells_close hstyle hclose depth
      (hfirst.append hothers (endsWord_fieldChars style (depth + 1) fields))
    rw [List.append_assoc, List.append_assoc] at hall
    rw [chars]
    simp only [List.append_assoc, List.cons_append]
    exact .mark rfl (.blanks (hstyle.lineBreak (depth + 1)) (spells_key hstyle key hall))

theorem spells_elementChars : ∀ (vs : List Value), (∀ v ∈ vs, v.IsProper) → ∀ depth,
    Token.Spells (elementChars style depth vs) (elementTokens vs)
  | [], _, _ => .nil
  | v :: vs, h, depth => by
    obtain ⟨hv, hvs⟩ := List.forall_mem_cons.mp h
    have hnext := spells_chars v hv depth
    have hothers := spells_elementChars vs hvs depth
    have hall := hnext.append hothers (endsWord_elementChars style depth vs)
    rw [elementChars, List.append_assoc]
    exact .mark rfl (.blanks (hstyle.lineBreak depth) hall)

theorem spells_fieldChars : ∀ (fields : List (Option String × Value)),
    (∀ e ∈ fields, (∃ key, e.1 = some key) ∧ e.2.IsProper) → ∀ depth,
    Token.Spells (fieldChars style depth fields) (fieldTokens fields)
  | [], _, _ => .nil
  | (k, v) :: fields, h, depth => by
    obtain ⟨⟨⟨key, rfl⟩, hv⟩, hfields⟩ := List.forall_mem_cons.mp h
    have hnext := spells_chars v hv depth
    have hothers := spells_fieldChars fields hfields depth
    have hall := hnext.append hothers (endsWord_fieldChars style depth fields)
    rw [fieldChars]
    simp only [List.append_assoc, List.cons_append]
    exact .mark rfl (.blanks (hstyle.lineBreak depth) (spells_key hstyle key hall))

end

/-- **A written value reads back** as itself. -/
theorem ofChars?_chars {v : Value} (h : v.IsProper) (depth : Nat) :
    ofChars? (v.chars style depth) = some v := by
  unfold ofChars?
  rw [(spells_chars hstyle v h depth).ofChars?_eq]
  exact ofTokens?_tokens v

end Spelling

theorem ofText?_compact {v : Value} (h : v.IsProper) : ofText? v.compact = some v := by
  unfold ofText? compact
  rw [String.toList_ofList]
  exact ofChars?_chars Style.isBlank_compact h 0

theorem ofText?_indented {v : Value} (h : v.IsProper) : ofText? v.indented = some v := by
  unfold ofText? indented
  rw [String.toList_ofList]
  exact ofChars?_chars Style.isBlank_indented h 0

end Value

end Json

end ShardPlan
