import ShardPlan.Proofs.Layout.Spelling

/-! # Texts tell layouts apart

A layout has a text of every rank unless it splits the last dimension that a machine word can number
(`sequence_hasValue_iff`). The compact text is the text without what sets the dimensions apart
(`compactSequence_of_sequence`), and both show every dimension that is split, also beyond the rank. So a text
tells the layout if the axes of each dimension can be told, which they can as long as every axis has a single
digit (`texts_identify`). Axis 10 is spelt like axis 1 followed by axis 0. -/

namespace ShardPlan

/-! ### What sets parts apart -/

/-- Without the separators, parts that are set apart follow each other. -/
theorem filter_intercalate {α : Type} {p : α → Bool} {sep : List α} (hsep : sep.filter p = []) :
    ∀ {parts : List (List α)}, (∀ part ∈ parts, ∀ c ∈ part, p c = true) →
      (sep.intercalate parts).filter p = parts.flatten
  | [], _ => rfl
  | [part], h => by
    rw [List.intercalate_singleton, List.flatten_singleton, List.filter_eq_self]
    exact h part (by simp)
  | part :: next :: parts, h => by
    obtain ⟨hpart, hparts⟩ := List.forall_mem_cons.mp h
    rw [List.intercalate_cons_cons, List.filter_append, List.filter_append, hsep, List.append_nil,
      List.filter_eq_self.mpr hpart, filter_intercalate hsep hparts, ← List.flatten_cons]

namespace Layout

/-- The characters between the dimensions and around them. -/
def isSeparator (c : Char) : Bool := ['[', ']', ',', ' '].contains c

theorem isSeparator_eq_false_of_mem_dimText {axes : List Nat} {c : Char}
    (h : c ∈ (dimText axes).toList) : isSeparator c = false := by
  obtain ⟨letter, digits, htext, hletter, hdigits⟩ := exists_toList_dimText axes
  rw [htext] at h
  rcases List.mem_cons.mp h with rfl | hc
  · rcases hletter with rfl | rfl
    · rfl
    · rfl
  · have hdigit := hdigits c hc
    by_contra hsep
    rw [Bool.not_eq_false, isSeparator, List.contains_iff_mem] at hsep
    simp only [List.mem_cons, List.not_mem_nil, or_false] at hsep
    rcases hsep with rfl | rfl | rfl | rfl <;> exact absurd hdigit (by decide)

variable {l l' : Layout} {rank : Nat}

/-! ### Which layouts have a text -/

theorem sequence_eq_ok_iff {text : String} : l.sequence rank = .ok text ↔
    ∃ dims, l.dimTexts rank = .ok dims ∧ text = "[" ++ String.intercalate ", " dims ++ "]" :=
  bind_pure_eq_ok_iff

theorem sequenceLength_hasValue_iff :
    HasValue (l.sequenceLength rank) ↔ ∀ dim, l.axes dim ≠ [] → dim + 1 < wordLimit := by
  unfold sequenceLength
  split
  · next hnone =>
    exact ⟨fun _ dim hdim => absurd (axes_of_lastSplit?_eq_none hnone dim) hdim, fun _ => .ok rank⟩
  · next last hlast =>
    obtain ⟨hsplit, hgreatest⟩ := of_lastSplit? hlast
    constructor
    · rintro ⟨length, h⟩ dim hdim
      obtain ⟨next, hnext, -⟩ := bind_eq_ok_iff.mp h
      have hlt := (Size.succ_eq_ok_iff.mp hnext).1
      have hle := hgreatest dim hdim
      omega
    · intro h
      rw [Size.succ, if_pos (h last hsplit)]
      exact .ok _

theorem dimTexts_hasValue_iff :
    HasValue (l.dimTexts rank) ↔ ∀ dim, l.axes dim ≠ [] → dim + 1 < wordLimit :=
  HasValue.bind_pure_iff.trans sequenceLength_hasValue_iff

/-- **A layout has a text** unless it splits the last dimension of all. -/
theorem sequence_hasValue_iff :
    HasValue (l.sequence rank) ↔ ∀ dim, l.axes dim ≠ [] → dim + 1 < wordLimit :=
  HasValue.bind_pure_iff.trans dimTexts_hasValue_iff

theorem compactSequence_hasValue_iff :
    HasValue (l.compactSequence rank) ↔ ∀ dim, l.axes dim ≠ [] → dim + 1 < wordLimit :=
  HasValue.bind_pure_iff.trans dimTexts_hasValue_iff

theorem compactSequence_of_sequence {text : String} (h : l.sequence rank = .ok text) :
    l.compactSequence rank = .ok (String.ofList (text.toList.filter fun c => !isSeparator c)) := by
  obtain ⟨dims, hdims, rfl⟩ := sequence_eq_ok_iff.mp h
  obtain ⟨length, -, hshown⟩ := dimTexts_eq_ok_iff.mp hdims
  refine compactSequence_eq_ok_iff.mpr ⟨dims, hdims, String.toList_inj.mp ?_⟩
  have hfilter : (", ".toList.intercalate (dims.map String.toList)).filter (fun c => !isSeparator c) =
      (dims.map String.toList).flatten := by
    refine filter_intercalate rfl fun part hpart c hc => ?_
    obtain ⟨dim, hdim, rfl⟩ := List.mem_map.mp hpart
    obtain ⟨axes, -, rfl⟩ := List.mem_map.mp (hshown ▸ hdim)
    rw [isSeparator_eq_false_of_mem_dimText hc, Bool.not_false]
  have hopen : "[".toList.filter (fun c => !isSeparator c) = [] := rfl
  have hclose : "]".toList.filter (fun c => !isSeparator c) = [] := rfl
  rw [String.toList_ofList, String.toList_append, String.toList_append, String.toList_intercalate,
    List.filter_append, List.filter_append, hopen, hclose, hfilter, String.toList_join, List.flatMap_def,
    List.nil_append, List.append_nil]

/-! ### Axes of a single digit -/

/-- **Every axis of the layout has a single digit.** -/
def HasDigits (l : Layout) : Prop := ∀ axis ∈ l.usedAxes, axis < 10

instance (l : Layout) : Decidable l.HasDigits :=
  inferInstanceAs (Decidable (∀ axis ∈ l.usedAxes, axis < 10))

theorem HasDigits.lt (h : l.HasDigits) (dim : Nat) : ∀ axis ∈ l.axes dim, axis < 10 :=
  fun axis haxis => h axis (mem_usedAxes.mpr ⟨dim, haxis⟩)

theorem eq_of_flatMap_digits : ∀ {axes axes' : List Nat}, (∀ axis ∈ axes, axis < 10) →
    (∀ axis ∈ axes', axis < 10) → axes.flatMap (Nat.toDigits 10) = axes'.flatMap (Nat.toDigits 10) →
      axes = axes'
  | [], [], _, _, _ => rfl
  | [], axis' :: axes', _, h', h => by
    rw [List.flatMap_cons, Nat.toDigits_of_lt_base (h' axis' (by simp))] at h
    exact nomatch h
  | axis :: axes, [], hlt, _, h => by
    rw [List.flatMap_cons, Nat.toDigits_of_lt_base (hlt axis (by simp))] at h
    exact nomatch h
  | axis :: axes, axis' :: axes', hlt, hlt', h => by
    obtain ⟨haxis, haxes⟩ := List.forall_mem_cons.mp hlt
    obtain ⟨haxis', haxes'⟩ := List.forall_mem_cons.mp hlt'
    have hdigit := Nat.toDigits_of_lt_base haxis
    have hdigit' := Nat.toDigits_of_lt_base haxis'
    rw [List.flatMap_cons, List.flatMap_cons, hdigit, hdigit'] at h
    obtain ⟨hfirst, hrest⟩ := List.cons.inj h
    have hsame : axis = axis' := digits_injective (by rw [hdigit, hdigit', hfirst])
    rw [hsame, eq_of_flatMap_digits haxes haxes' hrest]

section Digits

variable (hl : l.HasDigits) (hl' : l'.HasDigits) {text : String}
include hl hl'

theorem HasDigits.eq_of_compactSequence (h : l.compactSequence rank = .ok text)
    (h' : l'.compactSequence rank = .ok text) : l = l' := by
  refine Layout.eq_of_compactSequence (fun dim heq => ?_) h h'
  rcases flatMap_digits_of_dimText heq with ⟨hnil, hnil'⟩ | ⟨-, -, hdigits⟩
  · rw [hnil, hnil']
  · exact eq_of_flatMap_digits (hl.lt dim) (hl'.lt dim) hdigits

theorem HasDigits.eq_of_sequence (h : l.sequence rank = .ok text) (h' : l'.sequence rank = .ok text) :
    l = l' :=
  hl.eq_of_compactSequence hl' (compactSequence_of_sequence h) (compactSequence_of_sequence h')

end Digits

/-- **Texts identify layouts** whose axes have a single digit. At any rank, with or without the separators,
another such layout has the text of a layout exactly if it is the same layout, also where dimensions are split
beyond the rank. A text is missing only if the layout splits the last dimension that a machine word can
number. -/
theorem texts_identify (rank : Nat) {l l' : Layout} (hl : l.HasDigits) (hl' : l'.HasDigits) :
    (∀ text, l.sequence rank = .ok text → (l'.sequence rank = .ok text ↔ l = l')) ∧
      (∀ text, l.compactSequence rank = .ok text → (l'.compactSequence rank = .ok text ↔ l = l')) ∧
        ((∃ text, l.sequence rank = .ok text) ↔ ∀ dim, l.axes dim ≠ [] → dim + 1 < wordLimit) ∧
          ((∃ text, l.compactSequence rank = .ok text) ↔
            ∀ dim, l.axes dim ≠ [] → dim + 1 < wordLimit) := by
  refine ⟨fun text h => ⟨hl.eq_of_sequence hl' h, fun heq => heq ▸ h⟩,
    fun text h => ⟨hl.eq_of_compactSequence hl' h, fun heq => heq ▸ h⟩, sequence_hasValue_iff,
    compactSequence_hasValue_iff⟩

/-- Two layouts that split a dimension beyond the rank along axis 2, and differ in where axis 0 is. -/
theorem texts_identify_of_beyond :
    (ofPairs [(0, [1, 0]), (3, [2])]).HasDigits ∧ (ofPairs [(0, [1]), (1, [0]), (3, [2])]).HasDigits ∧
      (ofPairs [(0, [1, 0]), (3, [2])]).sequence 2 = .ok "[S10, R, R, S2]" ∧
      (ofPairs [(0, [1, 0]), (3, [2])]).compactSequence 2 = .ok "S10RRS2" ∧
      (ofPairs [(0, [1]), (1, [0]), (3, [2])]).sequence 2 ≠ .ok "[S10, R, R, S2]" ∧
      (ofPairs [(0, [1]), (1, [0]), (3, [2])]).compactSequence 2 ≠ .ok "S10RRS2" := by
  have hl : (ofPairs [(0, [1, 0]), (3, [2])]).HasDigits := by decide
  have hl' : (ofPairs [(0, [1]), (1, [0]), (3, [2])]).HasDigits := by decide
  have hne : ofPairs [(0, [1, 0]), (3, [2])] ≠ ofPairs [(0, [1]), (1, [0]), (3, [2])] := by decide
  obtain ⟨htext, hcompact, -⟩ := texts_identify 2 hl hl'
  exact ⟨hl, hl', rfl, rfl, fun h => hne ((htext _ rfl).mp h), fun h => hne ((hcompact _ rfl).mp h)⟩

/-- An axis of two digits is spelt like two axes. -/
example : (ofPairs [(0, [10])]).sequence 1 = (ofPairs [(0, [1, 0])]).sequence 1 := rfl

end Layout

end ShardPlan
