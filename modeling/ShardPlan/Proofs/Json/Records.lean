import ShardPlan.Json.Record
import ShardPlan.Proofs.Arithmetic.Checked
import ShardPlan.Proofs.Json.Values

/-! # Records read back

The fields of an object are found under their names, in any number, as long as no name stands there twice
(`fields?_ofFields`). A list is read back if each of its elements is (`toList?_ofList_iff`), a size if it
fits a machine word (`toSize?_ofSize_iff`), and a text always. Whatever is stored is a proper value, so its
text reads back as this value. -/

namespace ShardPlan

namespace Json

namespace Value

/-! ### Proper values -/

theorem isProper_ofString (s : String) : (ofString s).IsProper := .text s

theorem isProper_ofSize (n : Nat) : (ofSize n).IsProper := .number (.ofNat n)

theorem isProper_ofDouble (x : Float) : (ofDouble x).IsProper := by
  unfold ofDouble
  split
  · exact .number _
  · exact .null

theorem isProper_ofList_iff {α : Type} {f : α → Value} {list : List α} :
    (ofList f list).IsProper ↔ ∀ a ∈ list, (f a).IsProper := by
  rw [ofList, isProper_array_iff, List.forall_mem_map]

theorem isProper_ofFields_iff {fields : List (String × Value)} :
    (ofFields fields).IsProper ↔ ∀ e ∈ fields, e.2.IsProper := by
  rw [ofFields, isProper_object_iff, List.forall_mem_map]
  exact forall₂_congr fun e _ => and_iff_right ⟨e.1, rfl⟩

/-! ### Plain values -/

theorem toSize?_ofSize_iff {n : Nat} : (ofSize n).toSize? = some n ↔ n < wordLimit := by
  have hwhole : (Numeral.ofNat n).toSize? wordLimit = if wordLimit ≤ n then none else some n := by
    simp [Numeral.toSize?, Numeral.ofNat]
  change (Numeral.ofNat n).toSize? wordLimit = some n ↔ n < wordLimit
  rw [hwhole]
  simp

/-- **A list is read back** exactly if each of its elements is. -/
theorem toList?_ofList_iff {α : Type} {f : α → Value} {g : Value → Option α} {list : List α} :
    (ofList f list).toList? g = some list ↔ ∀ a ∈ list, g (f a) = some a := by
  change (list.map f).mapM g = some list ↔ _
  rw [mapM_eq_some_iff, List.map_map, List.map_inj_left]
  rfl

/-! ### Fields -/

theorem filter_name_eq : ∀ {entries : List (String × Value)}, (entries.map Prod.fst).Nodup →
    ∀ {e : String × Value}, e ∈ entries → (entries.filter fun e' => e'.1 == e.1) = [e]
  | [], _, _, he => nomatch he
  | first :: entries, hnodup, e, he => by
    obtain ⟨hfirst, hnodup⟩ := List.nodup_cons.mp hnodup
    have hne : ∀ e' ∈ entries, e'.1 ≠ first.1 := fun e' he' h =>
      hfirst (h ▸ List.mem_map_of_mem he')
    rcases List.mem_cons.mp he with rfl | he
    · have hnone : (entries.filter fun e' => e'.1 == e.1) = [] :=
        List.filter_eq_nil_iff.mpr fun e' he' => by simpa using hne e' he'
      rw [List.filter_cons, if_pos (beq_self_eq_true e.1), hnone]
    · have hother : ¬(first.1 == e.1) = true := by simpa using (hne e he).symm
      rw [List.filter_cons, if_neg hother, filter_name_eq hnodup he]

theorem field?_of_mem {entries : List (String × Value)} (hnodup : (entries.map Prod.fst).Nodup)
    {e : String × Value} (he : e ∈ entries) : field? entries e.1 = some (some e.2) := by
  unfold field?
  rw [filter_name_eq hnodup he]

/-- **The fields of an object are found** under their names. -/
theorem fields?_ofFields (fields : List (String × Value)) (hnodup : (fields.map Prod.fst).Nodup) :
    (ofFields fields).fields? (fields.map Prod.fst) = some (fields.map fun e => some e.2) := by
  have hkeys : (fields.map fun e => (some e.1, e.2)).mapM
      (fun e : Option String × Value => e.1.map fun key => (key, e.2)) = some fields := by
    rw [mapM_eq_some_iff, List.map_map]
    rfl
  have hfound : (fields.map Prod.fst).mapM (field? fields) = some (fields.map fun e => some e.2) := by
    rw [mapM_eq_some_iff, List.map_map, List.map_map, List.map_inj_left]
    exact fun e he => field?_of_mem hnodup he
  change ((fields.map fun e => (some e.1, e.2)).mapM
      (fun e : Option String × Value => e.1.map fun key => (key, e.2))).bind
        (fun entries => (fields.map Prod.fst).mapM (field? entries)) = _
  rw [hkeys]
  exact hfound

end Value

end Json

end ShardPlan
