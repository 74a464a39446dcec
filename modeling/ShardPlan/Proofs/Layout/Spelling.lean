import Mathlib.Data.List.Flatten
import ShardPlan.Layout.Sequence
import ShardPlan.Proofs.Decimal.Numerals
import ShardPlan.Proofs.Layout.Within

/-! # How layouts are spelt

A dimension is spelt `R`, or `S` followed by the numbers of its axes with nothing between them. Dimensions
that follow each other can be told apart, since a number has only digits (`map_dimText_of_join`). The axes of
one dimension cannot always be told: `S10` may be axis 10, or axis 1 and then axis 0. They can if there is at
most one of them or they are all the axes of the mesh in order (`IsPlain`, `IsPlain.eq_of_dimText`), as no
number but zero starts with a zero. -/

namespace ShardPlan

/-! ### Texts in parts -/

theorem eq_of_append {α : Type} {has : α → Bool} {p q r s : List α} (hp : ∀ c ∈ p, has c = true)
    (hq : ∀ c ∈ q, has c = true) (hr : ∀ c ∈ r.head?, has c = false)
    (hs : ∀ c ∈ s.head?, has c = false) (h : p ++ r = q ++ s) : p = q ∧ r = s := by
  have htake := congrArg (List.takeWhile has) h
  rw [takeWhile_append_of_stop hp hr, takeWhile_append_of_stop hq hs] at htake
  subst htake
  exact ⟨rfl, List.append_cancel_left h⟩

/-- Texts without a blank can be told before something that starts with one. -/
theorem eq_of_append_blank {p q r s : String} {sep : List Char} (hp : ' ' ∉ p.toList)
    (hq : ' ' ∉ q.toList) (h : p ++ String.ofList (' ' :: sep) ++ r = q ++ String.ofList (' ' :: sep) ++ s) :
    p = q ∧ r = s := by
  have hnot : ∀ {p : String}, ' ' ∉ p.toList → ∀ c ∈ p.toList, (c != ' ') = true := by
    intro p hp c hc
    rw [bne_iff_ne]
    rintro rfl
    exact hp hc
  have hstart : ∀ r : List Char, ∀ c ∈ (' ' :: r).head?, (c != ' ') = false := by simp
  have hlist := congrArg String.toList h
  simp only [String.toList_append, String.toList_ofList, List.append_assoc, List.cons_append] at hlist
  obtain ⟨hfirst, hrest⟩ := eq_of_append (hnot hp) (hnot hq) (hstart _) (hstart _) hlist
  have hrest : r.toList = s.toList := List.append_cancel_left (List.cons.inj hrest).2
  exact ⟨String.toList_inj.mp hfirst, String.toList_inj.mp hrest⟩

namespace Layout

/-! ### Dimensions -/

theorem toList_dimText (axes : List Nat) : (dimText axes).toList =
    if axes = [] then ['R'] else 'S' :: axes.flatMap (Nat.toDigits 10) := by
  unfold dimText
  cases axes with
  | nil => rfl
  | cons axis axes =>
    simp [String.toList_join, List.flatMap_map, Nat.toString_eq_repr]

theorem exists_toList_dimText (axes : List Nat) : ∃ letter digits,
    (dimText axes).toList = letter :: digits ∧ (letter = 'R' ∨ letter = 'S') ∧
      ∀ c ∈ digits, c.isDigit = true := by
  rw [toList_dimText]
  split_ifs with h
  · exact ⟨'R', [], rfl, .inl rfl, by simp⟩
  · refine ⟨'S', _, rfl, .inr rfl, fun c hc => ?_⟩
    obtain ⟨axis, -, hc⟩ := List.mem_flatMap.mp hc
    exact isDigit_of_mem_digits hc

theorem isDigit_head_flatMap_dimText (dims : List (List Nat)) :
    ∀ c ∈ (dims.flatMap fun axes => (dimText axes).toList).head?, c.isDigit = false := by
  cases dims with
  | nil => simp
  | cons axes dims =>
    obtain ⟨letter, digits, htext, hletter, -⟩ := exists_toList_dimText axes
    intro c hc
    rw [List.flatMap_cons, htext, List.cons_append, List.head?_cons, Option.mem_some_iff] at hc
    rcases hletter with h | h
    · rw [← hc, h]; rfl
    · rw [← hc, h]; rfl

theorem flatMap_dimText_injective : ∀ {dims dims' : List (List Nat)},
    (dims.flatMap fun axes => (dimText axes).toList) =
      (dims'.flatMap fun axes => (dimText axes).toList) →
    dims.map dimText = dims'.map dimText
  | [], [], _ => rfl
  | [], axes :: dims, h => by
    obtain ⟨letter, digits, htext, -, -⟩ := exists_toList_dimText axes
    rw [List.flatMap_cons, htext] at h
    exact nomatch h
  | axes :: dims, [], h => by
    obtain ⟨letter, digits, htext, -, -⟩ := exists_toList_dimText axes
    rw [List.flatMap_cons, htext] at h
    exact nomatch h
  | axes :: dims, axes' :: dims', h => by
    obtain ⟨letter, digits, htext, -, hdigits⟩ := exists_toList_dimText axes
    obtain ⟨letter', digits', htext', -, hdigits'⟩ := exists_toList_dimText axes'
    rw [List.flatMap_cons, List.flatMap_cons, htext, htext', List.cons_append, List.cons_append] at h
    obtain ⟨rfl, htail⟩ := List.cons.inj h
    obtain ⟨rfl, hrest⟩ := eq_of_append hdigits hdigits' (isDigit_head_flatMap_dimText dims)
      (isDigit_head_flatMap_dimText dims') htail
    have hfirst : dimText axes = dimText axes' := String.toList_inj.mp (htext.trans htext'.symm)
    rw [List.map_cons, List.map_cons, hfirst, flatMap_dimText_injective hrest]

/-- **Dimensions spelt one after the other** can be told apart. -/
theorem map_dimText_of_join {dims dims' : List (List Nat)}
    (h : String.join (dims.map dimText) = String.join (dims'.map dimText)) :
    dims.map dimText = dims'.map dimText := by
  refine flatMap_dimText_injective ?_
  have hlist := congrArg String.toList h
  rwa [String.toList_join, String.toList_join, List.flatMap_map, List.flatMap_map] at hlist

theorem blank_notMem_join (dims : List (List Nat)) :
    ' ' ∉ (String.join (dims.map dimText)).toList := by
  rw [String.toList_join, List.flatMap_map]
  intro h
  obtain ⟨axes, -, h⟩ := List.mem_flatMap.mp h
  obtain ⟨letter, digits, htext, hletter, hdigits⟩ := exists_toList_dimText axes
  rw [htext] at h
  rcases List.mem_cons.mp h with h | h
  · rcases hletter with hl | hl
    · rw [hl] at h; exact absurd h (by decide)
    · rw [hl] at h; exact absurd h (by decide)
  · exact absurd (hdigits ' ' h) (by decide)

/-! ### Axes -/

/-- **Axes that can be told from how they are spelt**: at most one, or all of a mesh in order. -/
inductive IsPlain (axisCount : Nat) : List Nat → Prop
  | none : IsPlain axisCount []
  | one (axis : Nat) : IsPlain axisCount [axis]
  | all (hmany : 1 < axisCount) : IsPlain axisCount (List.range axisCount)

variable {axisCount : Nat} {axes axes' : List Nat}

/-- All axes in order are spelt with a zero and a one at first. -/
theorem exists_flatMap_digits_range (hmany : 1 < axisCount) :
    ∃ rest, (List.range axisCount).flatMap (Nat.toDigits 10) = '0' :: '1' :: rest := by
  obtain ⟨n, rfl⟩ : ∃ n, axisCount = n + 2 := ⟨axisCount - 2, by omega⟩
  refine ⟨((List.range n).map (· + 2)).flatMap (Nat.toDigits 10), ?_⟩
  rw [List.range_succ_eq_map, List.range_succ_eq_map]
  simp [Nat.toDigits_of_lt_base, Nat.digitChar, List.flatMap_map, Function.comp_def]

theorem digits_ne_flatMap_digits_range (hmany : 1 < axisCount) (axis : Nat) :
    Nat.toDigits 10 axis ≠ (List.range axisCount).flatMap (Nat.toDigits 10) := by
  obtain ⟨rest, hrest⟩ := exists_flatMap_digits_range hmany
  rw [hrest]
  intro h
  have hzero : axis = 0 := eq_zero_of_head_digits (by rw [h]; rfl)
  rw [hzero, Nat.toDigits_zero] at h
  exact nomatch h

theorem IsPlain.eq_of_flatMap_digits (h : IsPlain axisCount axes) (h' : IsPlain axisCount axes')
    (hne : axes ≠ []) (hne' : axes' ≠ [])
    (heq : axes.flatMap (Nat.toDigits 10) = axes'.flatMap (Nat.toDigits 10)) : axes = axes' := by
  have hone : ∀ axis, [axis].flatMap (Nat.toDigits 10) = Nat.toDigits 10 axis := fun axis => by simp
  cases h with
  | none => exact absurd rfl hne
  | one axis =>
    rw [hone] at heq
    cases h' with
    | none => exact absurd rfl hne'
    | one axis' =>
      rw [hone] at heq
      rw [digits_injective heq]
    | all hmany => exact absurd heq (digits_ne_flatMap_digits_range hmany axis)
  | all hmany =>
    cases h' with
    | none => exact absurd rfl hne'
    | one axis' =>
      rw [hone] at heq
      exact absurd heq.symm (digits_ne_flatMap_digits_range hmany axis')
    | all _ => rfl

/-- Dimensions that are spelt alike are both replicated, or the axes of both have the same digits. -/
theorem flatMap_digits_of_dimText (h : dimText axes = dimText axes') : axes = [] ∧ axes' = [] ∨
    axes ≠ [] ∧ axes' ≠ [] ∧ axes.flatMap (Nat.toDigits 10) = axes'.flatMap (Nat.toDigits 10) := by
  have hlist := congrArg String.toList h
  rw [toList_dimText, toList_dimText] at hlist
  split_ifs at hlist with hnil hnil' hnil'
  · exact .inl ⟨hnil, hnil'⟩
  · exact absurd (List.cons.inj hlist).1 (by decide)
  · exact absurd (List.cons.inj hlist).1 (by decide)
  · exact .inr ⟨hnil, hnil', (List.cons.inj hlist).2⟩

/-- **Plain axes are told** from how the dimension is spelt. -/
theorem IsPlain.eq_of_dimText (h : IsPlain axisCount axes) (h' : IsPlain axisCount axes')
    (heq : dimText axes = dimText axes') : axes = axes' := by
  rcases flatMap_digits_of_dimText heq with ⟨hnil, hnil'⟩ | ⟨hne, hne', hdigits⟩
  · rw [hnil, hnil']
  · exact h.eq_of_flatMap_digits h' hne hne' hdigits

/-! ### Layouts -/

theorem of_lastSplit? {l : Layout} {last : Nat} (h : l.lastSplit? = some last) :
    l.axes last ≠ [] ∧ ∀ dim, l.axes dim ≠ [] → dim ≤ last := by
  obtain ⟨⟨last, axes⟩, he, rfl⟩ := Option.map_eq_some_iff.mp h
  obtain ⟨before, hsplit⟩ := List.getLast?_eq_some_iff.mp he
  have hascending := l.partitions_ascending
  rw [hsplit, List.map_append, List.pairwise_append] at hascending
  refine ⟨?_, fun dim hne => ?_⟩
  · obtain ⟨rfl, hne⟩ := mem_partitions.mp (List.mem_of_getLast? he)
    exact hne
  · have hmem : (dim, l.axes dim) ∈ before ++ [(last, axes)] :=
      hsplit ▸ mem_partitions.mpr ⟨rfl, hne⟩
    rcases List.mem_append.mp hmem with hmem | hmem
    · exact Nat.le_of_lt (hascending.2.2 dim (List.mem_map_of_mem hmem) last (by simp))
    · exact Nat.le_of_eq (congrArg Prod.fst (List.mem_singleton.mp hmem))

theorem axes_of_lastSplit?_eq_none {l : Layout} (h : l.lastSplit? = none) (dim : Nat) :
    l.axes dim = [] := by
  by_contra hne
  rw [lastSplit?, Option.map_eq_none_iff, List.getLast?_eq_none_iff] at h
  have hmem : (dim, l.axes dim) ∈ l.partitions := mem_partitions.mpr ⟨rfl, hne⟩
  rw [h] at hmem
  exact nomatch hmem

variable {K : Type} {mesh : Mesh K} {l l' : Layout} {rank : Nat}

theorem lt_sequenceLength {length : Nat} (h : l.sequenceLength rank = .ok length) {dim : Nat}
    (hdim : l.axes dim ≠ []) : dim < length := by
  unfold sequenceLength at h
  split at h
  · next hnone => exact absurd (axes_of_lastSplit?_eq_none hnone dim) hdim
  · next last hlast =>
    obtain ⟨next, hnext, h⟩ := bind_eq_ok_iff.mp h
    have hle := (of_lastSplit? hlast).2 dim hdim
    have hsucc := (Size.succ_eq_ok_iff.mp hnext).2
    cases h
    omega

theorem dimTexts_eq_ok_iff {dims : List String} : l.dimTexts rank = .ok dims ↔
    ∃ length, l.sequenceLength rank = .ok length ∧
      dims = ((List.range length).map l.axes).map dimText := by
  simp only [List.map_map]
  exact bind_pure_eq_ok_iff

theorem compactSequence_eq_ok_iff {text : String} : l.compactSequence rank = .ok text ↔
    ∃ dims, l.dimTexts rank = .ok dims ∧ text = String.join dims :=
  bind_pure_eq_ok_iff

/-- **Layouts are told from how they are spelt** if the axes of each of their dimensions are. -/
theorem eq_of_compactSequence
    (htell : ∀ dim, dimText (l.axes dim) = dimText (l'.axes dim) → l.axes dim = l'.axes dim)
    {text : String} (h : l.compactSequence rank = .ok text) (h' : l'.compactSequence rank = .ok text) :
    l = l' := by
  obtain ⟨_, hshown, rfl⟩ := compactSequence_eq_ok_iff.mp h
  obtain ⟨_, hshown', htext⟩ := compactSequence_eq_ok_iff.mp h'
  obtain ⟨length, hlength, rfl⟩ := dimTexts_eq_ok_iff.mp hshown
  obtain ⟨length', hlength', rfl⟩ := dimTexts_eq_ok_iff.mp hshown'
  have hdims := map_dimText_of_join htext
  have hsame : length = length' := by simpa using congrArg List.length hdims
  subst hsame
  refine ext_axes fun dim => ?_
  by_cases hdim : dim < length
  · exact htell dim (by simpa [hdim] using congrArg (fun texts => texts[dim]?) hdims)
  · have hnil : l.axes dim = [] := by_contra fun hne => hdim (lt_sequenceLength hlength hne)
    have hnil' : l'.axes dim = [] := by_contra fun hne => hdim (lt_sequenceLength hlength' hne)
    rw [hnil, hnil']

theorem Within.sequenceLength_eq_ok (h : l.Within rank mesh) (hrank : rank < wordLimit) :
    l.sequenceLength rank = .ok rank := by
  unfold sequenceLength
  split
  · rfl
  · next dim hdim =>
    have hlt : dim < rank := h.dim_lt (of_lastSplit? hdim).1
    have hmax : max rank (dim + 1) = rank := by omega
    rw [Size.succ, if_pos (by omega)]
    exact congrArg Except.ok hmax

theorem Within.compactSequence_eq_ok (h : l.Within rank mesh) (hrank : rank < wordLimit) :
    l.compactSequence rank = .ok (String.join (((List.range rank).map l.axes).map dimText)) :=
  compactSequence_eq_ok_iff.mpr
    ⟨_, dimTexts_eq_ok_iff.mpr ⟨rank, h.sequenceLength_eq_ok hrank, rfl⟩, rfl⟩

theorem Within.eq_of_compactSequence (h : l.Within rank mesh) (hrank : rank < wordLimit)
    (hplain : ∀ dim, IsPlain axisCount (l.axes dim)) (hplain' : ∀ dim, IsPlain axisCount (l'.axes dim))
    (heq : l.compactSequence rank = l'.compactSequence rank) : l = l' := by
  obtain ⟨text, htext⟩ := h.compactSequence_hasValue hrank rank
  exact Layout.eq_of_compactSequence (fun dim => (hplain dim).eq_of_dimText (hplain' dim)) htext
    (heq.symm.trans htext)

end Layout

end ShardPlan
