/-! # Sorted maps

A finite map is the list of its entries in strictly ascending key order. Two maps with the same
lookups are the same value (`SortedMap.ext_get?`), so maps can be compared and listed without a
choice of order. The order of the keys is all that lookups use. -/

namespace ShardPlan

/-! ### Keys -/

/-- A type of keys with a strict linear order that can be tested. -/
class Key (κ : Type) where
  /-- Whether the first key comes strictly before the second. -/
  before : κ → κ → Bool
  before_irrefl : ∀ a, before a a = false
  before_trans : ∀ a b c, before a b = true → before b c = true → before a c = true
  before_connex : ∀ a b, before a b = false → before b a = false → a = b

theorem nat_before_connex (a b : Nat) (h : Nat.blt a b = false) (h' : Nat.blt b a = false) :
    a = b := by
  rw [← Bool.not_eq_true, Nat.blt_eq] at h h'
  omega

/-- Numbers are ordered by size. -/
instance : Key Nat where
  before := Nat.blt
  before_irrefl _ := by rw [← Bool.not_eq_true, Nat.blt_eq]; omega
  before_trans _ _ _ h h' := by rw [Nat.blt_eq] at *; omega
  before_connex := nat_before_connex

/-- Texts are ordered by their code points. -/
instance : Key String where
  before a b := decide (a < b)
  before_irrefl a := decide_eq_false (String.lt_irrefl a)
  before_trans _ _ _ h h' := decide_eq_true
    (String.lt_trans (of_decide_eq_true h) (of_decide_eq_true h'))
  before_connex _ _ h h' := String.le_antisymm
    (String.not_lt.mp (of_decide_eq_false h')) (String.not_lt.mp (of_decide_eq_false h))

theorem Key.before_asymm {κ : Type} [Key κ] {a b : κ} (h : Key.before a b = true) :
    Key.before b a = false := by
  cases hb : Key.before b a with
  | false => rfl
  | true => rw [← Key.before_irrefl a, ← Key.before_trans a b a h hb]

/-! ### The map -/

/-- A finite map with its entries in strictly ascending key order. -/
structure SortedMap (κ α : Type) [Key κ] where
  /-- The entries, smallest key first. -/
  entries : List (κ × α)
  ascending : entries.Pairwise fun e e' => Key.before e.1 e'.1 = true

namespace SortedMap

variable {κ α β : Type} [Key κ]

instance [DecidableEq κ] [DecidableEq α] : DecidableEq (SortedMap κ α) := fun m m' =>
  decidable_of_iff (m.entries = m'.entries) <| by cases m; cases m'; simp

/-- The map without entries. -/
def empty : SortedMap κ α := ⟨[], List.Pairwise.nil⟩

instance : EmptyCollection (SortedMap κ α) := ⟨empty⟩

instance : Inhabited (SortedMap κ α) := ⟨empty⟩

/-- The value of the first entry at `k` of an ascending list. -/
def lookup (k : κ) : List (κ × α) → Option α
  | [] => none
  | (k', v) :: rest =>
    if Key.before k' k then lookup k rest else if Key.before k k' then none else some v

/-- The value stored at `k`. -/
def get? (m : SortedMap κ α) (k : κ) : Option α := lookup k m.entries

/-- Whether a value is stored at `k`. -/
def contains (m : SortedMap κ α) (k : κ) : Bool := (m.get? k).isSome

/-- The number of entries. -/
def size (m : SortedMap κ α) : Nat := m.entries.length

/-- Whether the map has no entry. -/
def isEmpty (m : SortedMap κ α) : Bool := m.entries.isEmpty

/-- The keys in ascending order. -/
def keys (m : SortedMap κ α) : List κ := m.entries.map Prod.fst

/-- The values in the order of their keys. -/
def values (m : SortedMap κ α) : List α := m.entries.map Prod.snd

/-- An ascending list with the value of `k` set to `v`. -/
def put (k : κ) (v : α) : List (κ × α) → List (κ × α)
  | [] => [(k, v)]
  | (k', v') :: rest =>
    if Key.before k k' then (k, v) :: (k', v') :: rest
    else if Key.before k' k then (k', v') :: put k v rest
    else (k, v) :: rest

theorem mem_put {k : κ} {v : α} {e : κ × α} {l : List (κ × α)} (h : e ∈ put k v l) :
    e = (k, v) ∨ e ∈ l := by
  induction l with
  | nil => simpa [put] using h
  | cons a l ih =>
    rw [put] at h
    split at h
    · simpa using h
    · split at h
      · rcases List.mem_cons.mp h with h | h
        · exact .inr (h ▸ List.mem_cons_self)
        · exact (ih h).imp_right (List.mem_cons_of_mem _)
      · exact (List.mem_cons.mp h).imp_right (List.mem_cons_of_mem _)

theorem put_ascending (k : κ) (v : α) {l : List (κ × α)}
    (h : l.Pairwise fun e e' => Key.before e.1 e'.1 = true) :
    (put k v l).Pairwise fun e e' => Key.before e.1 e'.1 = true := by
  induction l with
  | nil => exact List.pairwise_singleton _ _
  | cons a l ih =>
    obtain ⟨ha, hl⟩ := List.pairwise_cons.mp h
    rw [put]
    split
    · rename_i hk
      exact List.pairwise_cons.mpr ⟨fun e he => (List.mem_cons.mp he).elim (fun he => he ▸ hk)
        (fun he => Key.before_trans _ _ _ hk (ha e he)), h⟩
    · split
      · rename_i hk
        exact List.pairwise_cons.mpr ⟨fun e he => (mem_put he).elim (fun he => he ▸ hk) (ha e),
          ih hl⟩
      · rename_i hk hk'
        have hka : k = a.1 := Key.before_connex _ _ (by simpa using hk) (by simpa using hk')
        exact List.pairwise_cons.mpr ⟨fun e he => hka ▸ ha e he, hl⟩

/-- The map with the value at `k` set to `v`. -/
def insert (m : SortedMap κ α) (k : κ) (v : α) : SortedMap κ α :=
  ⟨put k v m.entries, put_ascending k v m.ascending⟩

/-- The map without an entry at `k`. -/
def erase (m : SortedMap κ α) (k : κ) : SortedMap κ α :=
  ⟨m.entries.filter fun e => Key.before e.1 k || Key.before k e.1, m.ascending.filter _⟩

/-- The map with every value replaced by its image. -/
def mapValues (f : α → β) (m : SortedMap κ α) : SortedMap κ β :=
  ⟨m.entries.map fun e => (e.1, f e.2), List.pairwise_map.mpr m.ascending⟩

/-- The map of a list of entries, where the last entry of a key wins. -/
def ofList (l : List (κ × α)) : SortedMap κ α := l.foldl (fun m e => m.insert e.1 e.2) empty

/-! ### Lookups -/

theorem lookup_eq_none_of_forall {k : κ} {l : List (κ × α)}
    (h : ∀ e ∈ l, Key.before k e.1 = true) : lookup k l = none := by
  cases l with
  | nil => rfl
  | cons a l =>
    have ha := h a List.mem_cons_self
    simp [lookup, ha, Key.before_asymm ha]

theorem lookup_put (k : κ) (v : α) (k' : κ) {l : List (κ × α)}
    (h : l.Pairwise fun e e' => Key.before e.1 e'.1 = true) :
    lookup k' (put k v l) =
      if Key.before k k' || Key.before k' k then lookup k' l else some v := by
  induction l with
  | nil => simp only [put, lookup]; grind
  | cons a l ih =>
    obtain ⟨ha, hl⟩ := List.pairwise_cons.mp h
    have ih := ih hl
    by_cases h1 : Key.before k a.1 = true
    · by_cases h2 : Key.before k k' = true
      · simp [put, h1, lookup, h2]
      · by_cases h3 : Key.before k' k = true
        · have h4 : lookup k' (a :: l) = none := lookup_eq_none_of_forall fun e he =>
            (List.mem_cons.mp he).elim (fun he => he ▸ Key.before_trans _ _ _ h3 h1)
              (fun he => Key.before_trans _ _ _ (Key.before_trans _ _ _ h3 h1) (ha e he))
          simp [put, h1, lookup, h2, h3] at h4 ⊢
          exact h4.symm ▸ rfl
        · simp [put, h1, lookup, h2, h3]
    · by_cases h2 : Key.before a.1 k = true
      · have hput : put k v (a :: l) = a :: put k v l := by simp [put, h1, h2]
        rw [hput, lookup, lookup, ih]
        by_cases h3 : Key.before a.1 k' = true
        · simp [h3]
        · by_cases h4 : Key.before k' a.1 = true
          · have h5 := Key.before_trans _ _ _ h4 h2
            simp [h3, h4, h5]
          · have h5 : a.1 = k' := Key.before_connex _ _ (by simpa using h3) (by simpa using h4)
            subst h5
            simp [Key.before_irrefl, h2]
      · have h5 : k = a.1 := Key.before_connex _ _ (by simpa using h1) (by simpa using h2)
        subst h5
        have hput : put a.1 v (a :: l) = (a.1, v) :: l := by simp [put, Key.before_irrefl]
        rw [hput, lookup, lookup]
        by_cases h3 : Key.before a.1 k' = true <;> by_cases h4 : Key.before k' a.1 = true <;>
          simp [h3, h4]

/-- After an insertion the key of the insertion has the new value, the others the old one. -/
theorem get?_insert [DecidableEq κ] (m : SortedMap κ α) (k : κ) (v : α) (k' : κ) :
    (m.insert k v).get? k' = if k = k' then some v else m.get? k' := by
  rw [get?, insert, lookup_put k v k' m.ascending]
  by_cases h : k = k'
  · subst h; simp [Key.before_irrefl]
  · have h' : (Key.before k k' || Key.before k' k) = true := by
      cases h1 : Key.before k k' <;> cases h2 : Key.before k' k <;> simp
      exact h (Key.before_connex _ _ h1 h2)
    simp [h, h', get?]

theorem get?_eq_some_iff {m : SortedMap κ α} {k : κ} {v : α} :
    m.get? k = some v ↔ (k, v) ∈ m.entries := by
  obtain ⟨l, h⟩ := m
  simp only [get?]
  induction l with
  | nil => simp [lookup]
  | cons a l ih =>
    obtain ⟨ha, hl⟩ := List.pairwise_cons.mp h
    rw [lookup, List.mem_cons]
    split
    · rename_i h1
      rw [ih hl]
      refine ⟨.inr, fun h2 => h2.resolve_left fun h3 => ?_⟩
      rw [← h3, Key.before_irrefl] at h1
      contradiction
    · rename_i h1
      have notin : ∀ x, Key.before a.1 k = false → (k, x) ∉ l := fun x h2 h3 => by
        rw [ha _ h3] at h2; contradiction
      split
      · rename_i h2
        refine ⟨nofun, fun h3 => ?_⟩
        rcases h3 with h3 | h3
        · rw [← h3, Key.before_irrefl] at h2; contradiction
        · exact absurd h3 (notin v (by simpa using h1))
      · rename_i h2
        have h3 : a.1 = k := Key.before_connex _ _ (by simpa using h1) (by simpa using h2)
        constructor
        · intro h4
          exact .inl (by rw [← h3, ← Option.some.inj h4])
        · rintro (h4 | h4)
          · rw [← h4]
          · exact absurd h4 (notin v (by simpa using h1))

/-- After an erasure the erased key has no value, the others keep theirs. -/
theorem get?_erase [DecidableEq κ] (m : SortedMap κ α) (k k' : κ) :
    (m.erase k).get? k' = if k = k' then none else m.get? k' := by
  apply Option.ext
  intro v
  rw [get?_eq_some_iff, erase, List.mem_filter]
  by_cases h : k = k'
  · subst h; simp [Key.before_irrefl]
  · have h' : (Key.before k' k || Key.before k k') = true := by
      cases h1 : Key.before k k' <;> cases h2 : Key.before k' k <;> simp
      exact h (Key.before_connex _ _ h1 h2)
    simp [h, h', ← get?_eq_some_iff]

@[simp]
theorem get?_empty (k : κ) : (empty : SortedMap κ α).get? k = none := rfl

theorem get?_mapValues (f : α → β) (m : SortedMap κ α) (k : κ) :
    (m.mapValues f).get? k = (m.get? k).map f := by
  obtain ⟨l, h⟩ := m
  simp only [get?, mapValues]
  clear h
  induction l with
  | nil => rfl
  | cons a l ih => simp only [List.map_cons, lookup, ih]; grind

/-! ### Keys of a map -/

/-- The keys of a map are strictly ascending. -/
theorem keys_ascending (m : SortedMap κ α) :
    m.keys.Pairwise fun k k' => Key.before k k' = true :=
  List.pairwise_map.mpr m.ascending

theorem nodup_keys (m : SortedMap κ α) : m.keys.Nodup := by
  refine m.keys_ascending.imp fun {k k'} h he => ?_
  rw [he, Key.before_irrefl] at h
  exact Bool.false_ne_true h

theorem mem_keys {m : SortedMap κ α} {k : κ} : k ∈ m.keys ↔ ∃ v, m.get? k = some v := by
  simp only [keys, List.mem_map, get?_eq_some_iff]
  constructor
  · rintro ⟨e, he, rfl⟩
    exact ⟨e.2, he⟩
  · rintro ⟨v, hv⟩
    exact ⟨(k, v), hv, rfl⟩

theorem mem_values {m : SortedMap κ α} {v : α} : v ∈ m.values ↔ ∃ k, m.get? k = some v := by
  simp only [values, List.mem_map, get?_eq_some_iff]
  constructor
  · rintro ⟨e, he, rfl⟩
    exact ⟨e.1, he⟩
  · rintro ⟨k, hk⟩
    exact ⟨(k, v), hk, rfl⟩

theorem mem_keys_insert [DecidableEq κ] {m : SortedMap κ α} {k k' : κ} {v : α} :
    k' ∈ (m.insert k v).keys ↔ k = k' ∨ k' ∈ m.keys := by
  simp only [mem_keys, get?_insert]
  by_cases h : k = k' <;> simp [h]

/-- The map of a list of entries has the keys of the list. -/
theorem mem_keys_ofList [DecidableEq κ] {l : List (κ × α)} {k : κ} :
    k ∈ (ofList l).keys ↔ k ∈ l.map Prod.fst := by
  have hfold : ∀ (l : List (κ × α)) (m : SortedMap κ α),
      k ∈ (l.foldl (fun m e => m.insert e.1 e.2) m).keys ↔ k ∈ l.map Prod.fst ∨ k ∈ m.keys := by
    intro l
    induction l with
    | nil => simp
    | cons e l ih =>
      intro m
      simp only [List.foldl_cons, ih, mem_keys_insert, List.map_cons, List.mem_cons]
      grind
  rw [ofList, hfold]
  simp [keys, empty]

/-- Adding entries changes nothing at other keys. -/
theorem get?_foldl_insert_of_not_mem [DecidableEq κ] {f : β → α} :
    ∀ {l : List (κ × β)} {m : SortedMap κ α} {k : κ}, k ∉ l.map Prod.fst →
      (l.foldl (fun m e => m.insert e.1 (f e.2)) m).get? k = m.get? k
  | [], _, _, _ => rfl
  | e :: l, m, k, h => by
    rw [List.map_cons, List.mem_cons, not_or] at h
    rw [List.foldl_cons, get?_foldl_insert_of_not_mem h.2, get?_insert, if_neg (Ne.symm h.1)]

/-- Entries of different keys are found once they are added. -/
theorem get?_foldl_insert_of_mem [DecidableEq κ] {f : β → α} :
    ∀ {l : List (κ × β)} {m : SortedMap κ α} {e : κ × β}, (l.map Prod.fst).Nodup → e ∈ l →
      (l.foldl (fun m e => m.insert e.1 (f e.2)) m).get? e.1 = some (f e.2)
  | e' :: l, m, e, hnodup, he => by
    obtain ⟨hnew, hnodup⟩ := List.nodup_cons.mp hnodup
    rw [List.foldl_cons]
    rcases List.mem_cons.mp he with rfl | he
    · rw [get?_foldl_insert_of_not_mem hnew, get?_insert, if_pos rfl]
    · exact get?_foldl_insert_of_mem hnodup he

/-! ### Maps are their lookups -/

theorem entries_eq_of_mem_iff {l l' : List (κ × α)}
    (h : l.Pairwise fun e e' => Key.before e.1 e'.1 = true)
    (h' : l'.Pairwise fun e e' => Key.before e.1 e'.1 = true)
    (hmem : ∀ e, e ∈ l ↔ e ∈ l') : l = l' := by
  induction l generalizing l' with
  | nil =>
    cases l' with
    | nil => rfl
    | cons a l' => exact absurd ((hmem a).mpr List.mem_cons_self) (List.not_mem_nil)
  | cons a l ih =>
    cases l' with
    | nil => exact absurd ((hmem a).mp List.mem_cons_self) (List.not_mem_nil)
    | cons a' l' =>
      obtain ⟨ha, hl⟩ := List.pairwise_cons.mp h
      obtain ⟨ha', hl'⟩ := List.pairwise_cons.mp h'
      have haa : a = a' := by
        rcases List.mem_cons.mp ((hmem a).mp List.mem_cons_self) with h1 | h1
        · exact h1
        · rcases List.mem_cons.mp ((hmem a').mpr List.mem_cons_self) with h2 | h2
          · exact h2.symm
          · have h3 := Key.before_asymm (ha _ h2)
            rw [ha' _ h1] at h3; contradiction
      subst haa
      have irrefl : ∀ {e : κ × α}, Key.before e.1 e.1 ≠ true := by simp [Key.before_irrefl]
      refine congrArg _ (ih hl hl' fun e => ⟨fun he => ?_, fun he => ?_⟩)
      · refine (List.mem_cons.mp ((hmem e).mp (List.mem_cons_of_mem _ he))).resolve_left ?_
        rintro rfl
        exact irrefl (ha _ he)
      · refine (List.mem_cons.mp ((hmem e).mpr (List.mem_cons_of_mem _ he))).resolve_left ?_
        rintro rfl
        exact irrefl (ha' _ he)

/-- Two maps with the same lookups are equal. -/
theorem ext_get? {m m' : SortedMap κ α} (h : ∀ k, m.get? k = m'.get? k) : m = m' := by
  have hmem : ∀ e, e ∈ m.entries ↔ e ∈ m'.entries := fun e => by
    rw [← get?_eq_some_iff (k := e.1) (v := e.2), ← get?_eq_some_iff (k := e.1) (v := e.2), h]
  have hent := entries_eq_of_mem_iff m.ascending m'.ascending hmem
  cases m; cases m'; simp_all

theorem mapValues_insert [DecidableEq κ] (f : α → β) (m : SortedMap κ α) (k : κ) (v : α) :
    (m.insert k v).mapValues f = (m.mapValues f).insert k (f v) := by
  refine ext_get? fun k' => ?_
  rw [get?_mapValues, get?_insert, get?_insert, get?_mapValues]
  split
  · rfl
  · rfl

end SortedMap

end ShardPlan
