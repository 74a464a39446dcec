import ShardPlan.Proofs.Json.Records
import ShardPlan.Stored

/-! # Stored forms read back

Whether a stored form reads back from its texts and files depends on its value alone (`readsBack_iff`): each
text is that of a proper value, and survives its encoding as bytes. A tensor type reads back if its sizes fit
a machine word, a mesh description if moreover each of its prices is read as it is written
(`readsBack_meshDescription_iff`), which a price need not be. -/

namespace ShardPlan

namespace Stored

open Json

/-! ### From values to texts and files -/

section Texts

variable {α : Type} [Stored α] {a : α}

theorem ofText?_text (h : (toValue a).IsProper) : (ofText? (text a) : Option α) = ofValue? (toValue a) := by
  unfold ofText? text
  rw [Value.ofText?_indented h]
  rfl

theorem ofText?_compactText (h : (toValue a).IsProper) :
    (ofText? (compactText a) : Option α) = ofValue? (toValue a) := by
  unfold ofText? compactText
  rw [Value.ofText?_compact h]
  rfl

theorem fromUTF8?_toUTF8 (s : String) : String.fromUTF8? s.toUTF8 = some s :=
  dif_pos s.isValidUTF8

/-- **A stored form that reads back**, from either text and through every file that can be written. -/
structure ReadsBack (a : α) : Prop where
  text : ofText? (text a) = some a
  compactText : ofText? (compactText a) = some a
  file : ∀ path, ∃ bytes, toFile path true a = .ok bytes ∧ ofFile path (some bytes) = .ok a

/-- **A proper value decides** whether the stored form reads back. -/
theorem readsBack_iff (hproper : (toValue a).IsProper) :
    ReadsBack a ↔ ofValue? (toValue a) = some a := by
  refine ⟨fun h => (ofText?_text hproper).symm.trans h.text, fun h => ?_⟩
  refine ⟨(ofText?_text hproper).trans h, (ofText?_compactText hproper).trans h, fun path => ?_⟩
  refine ⟨(text a).toUTF8, rfl, ?_⟩
  unfold ofFile
  rw [Option.bind_some, fromUTF8?_toUTF8]
  dsimp only
  rw [ofText?_text hproper, h]

end Texts

/-! ### Tensor types -/

theorem toList?_sizes_iff {sizes : List Nat} :
    (Value.ofList Value.ofSize sizes).toList? Value.toSize? = some sizes ↔
      ∀ size ∈ sizes, size < wordLimit :=
  Value.toList?_ofList_iff.trans (forall₂_congr fun _ _ => Value.toSize?_ofSize_iff)

theorem isProper_sizes (sizes : List Nat) : (Value.ofList Value.ofSize sizes).IsProper :=
  Value.isProper_ofList_iff.mpr fun size _ => Value.isProper_ofSize size

theorem ofValue?_elementType (t : ElementType) : ofValue? (toValue t) = some t :=
  ElementType.ofName?_name t

theorem isProper_tensorType (t : TensorType) : (toValue t).IsProper := by
  refine Value.isProper_ofFields_iff.mpr ?_
  simp only [List.forall_mem_cons]
  exact ⟨isProper_sizes t.shape, Value.isProper_ofString t.element.name, nofun⟩

theorem ofValue?_tensorType_iff {t : TensorType} :
    ofValue? (toValue t) = some t ↔ ∀ size ∈ t.shape, size < wordLimit := by
  have hfields : (toValue t).fields? ["shape", "dtype"] =
      some [some (.ofList .ofSize t.shape), some (toValue t.element)] :=
    Value.fields?_ofFields [("shape", .ofList .ofSize t.shape), ("dtype", toValue t.element)] (by simp)
  change ((toValue t).fields? ["shape", "dtype"]).bind _ = some t ↔ _
  rw [hfields, Option.bind_some, ← toList?_sizes_iff]
  constructor
  · intro h
    obtain ⟨shape, hshape, h⟩ := Option.bind_eq_some_iff.mp h
    obtain ⟨element, -, h⟩ := Option.bind_eq_some_iff.mp h
    cases h
    exact hshape
  · intro hshape
    simp only [Value.required, hshape, ofValue?_elementType, Option.bind_eq_bind, Option.bind_some]

theorem readsBack_tensorType_iff {t : TensorType} :
    ReadsBack t ↔ ∀ size ∈ t.shape, size < wordLimit :=
  (readsBack_iff (isProper_tensorType t)).trans ofValue?_tensorType_iff

/-- On one line nothing stands between the tokens. -/
example : compactText (⟨[8, 4], .f32⟩ : TensorType) =
    "\x7b\"shape\":[8,4],\"dtype\":\"F32\"\x7d" := by decide

/-! ### Mesh descriptions -/

/-- A double that is read as it is written. Reading rounds once for each step, so not every double is. -/
def IsKept (x : Float) : Prop := (Value.ofDouble x).toDouble? = some x

instance (x : Float) : Decidable (IsKept x) :=
  inferInstanceAs (Decidable ((Value.ofDouble x).toDouble? = some x))

theorem isProper_doubles (list : List Float) : (Value.ofList Value.ofDouble list).IsProper :=
  Value.isProper_ofList_iff.mpr fun x _ => Value.isProper_ofDouble x

theorem isProper_meshDescription (c : MeshDescription) : (toValue c).IsProper := by
  refine Value.isProper_ofFields_iff.mpr ?_
  simp only [List.forall_mem_cons]
  exact ⟨isProper_sizes c.shape,
    Value.isProper_ofList_iff.mpr fun name _ => Value.isProper_ofString name,
    isProper_doubles c.alpha, isProper_doubles c.beta, nofun⟩

theorem ofValue?_meshDescription_iff {c : MeshDescription} : ofValue? (toValue c) = some c ↔
    (∀ size ∈ c.shape, size < wordLimit) ∧ (∀ x ∈ c.alpha, IsKept x) ∧ ∀ x ∈ c.beta, IsKept x := by
  have hfields : (toValue c).fields? ["shape", "names", "alpha", "beta"] =
      some [some (.ofList .ofSize c.shape), some (.ofList .ofString c.names),
        some (.ofList .ofDouble c.alpha), some (.ofList .ofDouble c.beta)] :=
    Value.fields?_ofFields [("shape", .ofList .ofSize c.shape), ("names", .ofList .ofString c.names),
      ("alpha", .ofList .ofDouble c.alpha), ("beta", .ofList .ofDouble c.beta)] (by simp)
  have hnames : (Value.ofList Value.ofString c.names).toList? Value.toString? = some c.names :=
    Value.toList?_ofList_iff.mpr fun _ _ => rfl
  have hdoubles : ∀ {list : List Float}, (∀ x ∈ list, IsKept x) ↔
      (Value.ofList Value.ofDouble list).toList? Value.toDouble? = some list :=
    Value.toList?_ofList_iff.symm
  change ((toValue c).fields? ["shape", "names", "alpha", "beta"]).bind _ = some c ↔ _
  rw [hfields, Option.bind_some, ← toList?_sizes_iff, hdoubles, hdoubles]
  constructor
  · intro h
    obtain ⟨shape, hshape, h⟩ := Option.bind_eq_some_iff.mp h
    obtain ⟨names, -, h⟩ := Option.bind_eq_some_iff.mp h
    obtain ⟨alpha, halpha, h⟩ := Option.bind_eq_some_iff.mp h
    obtain ⟨beta, hbeta, h⟩ := Option.bind_eq_some_iff.mp h
    cases h
    exact ⟨hshape, halpha, hbeta⟩
  · rintro ⟨hshape, halpha, hbeta⟩
    simp only [Value.required, Value.withDefault, hshape, hnames, halpha, hbeta, Option.bind_eq_bind,
      Option.bind_some]

/-- **A mesh description reads back** exactly if its sizes fit a machine word and its prices are kept. Its
names are any texts. -/
theorem readsBack_meshDescription_iff {c : MeshDescription} : ReadsBack c ↔
    (∀ size ∈ c.shape, size < wordLimit) ∧ (∀ x ∈ c.alpha, IsKept x) ∧ ∀ x ∈ c.beta, IsKept x :=
  (readsBack_iff (isProper_meshDescription c)).trans ofValue?_meshDescription_iff

/-- A price of one eleventh has sixteen digits, which are rounded before they are divided by a power of
ten. It is not kept. -/
example : ¬IsKept 0.09090909090909091 := by decide +kernel

/-- An empty list stays on one line. -/
example : text ({ shape := [2], names := ["dp"] } : MeshDescription) =
    "\x7b\n  \"shape\": [\n    2\n  ],\n  \"names\": [\n    \"dp\"\n  ],\n" ++
      "  \"alpha\": [],\n  \"beta\": []\n\x7d" := by
  decide

/-! ### Options -/

theorem readsBack_options (o : Options) : ReadsBack o := by
  have hproper : (toValue o).IsProper := by
    refine Value.isProper_ofFields_iff.mpr ?_
    simp only [List.forall_mem_cons]
    exact ⟨.bool _, .bool _, .bool _, nofun⟩
  exact (readsBack_iff hproper).mpr rfl

/-! ### What is saved -/

/-- **Stored forms read back.** A mesh description without prices is the same after it was written and read,
whatever texts its axes are called by, and so is what it builds after it was saved and loaded; options are the
same in any case, and a tensor type on one line. -/
theorem stored_forms_read_back :
    (∀ c : MeshDescription, (∀ size ∈ c.shape, size < wordLimit) → c.alpha = [] → c.beta = [] →
      ofText? (text c) = some c ∧
        ∀ path, ∃ bytes, toFile path true c = .ok bytes ∧ ofFile path (some bytes) = .ok c ∧
          ∀ loaded : MeshDescription, ofFile path (some bytes) = .ok loaded → loaded.build = c.build) ∧
      (∀ t : TensorType, (∀ size ∈ t.shape, size < wordLimit) → ofText? (compactText t) = some t) ∧
        ∀ o : Options, ofText? (text o) = some o := by
  refine ⟨fun c hshape halpha hbeta => ?_, fun t hshape => ?_, fun o => (readsBack_options o).text⟩
  · have hback : ReadsBack c := by
      rw [readsBack_meshDescription_iff, halpha, hbeta]
      exact ⟨hshape, nofun, nofun⟩
    refine ⟨hback.text, fun path => ?_⟩
    obtain ⟨bytes, hsaved, hloaded⟩ := hback.file path
    refine ⟨bytes, hsaved, hloaded, fun loaded h => ?_⟩
    rw [hloaded] at h
    rw [← Except.ok.inj h]
  · exact (readsBack_tensorType_iff.mpr hshape).compactText

/-- The largest size, an empty axis, and names with quotes, backslashes, control characters and a character
that needs a surrogate pair. -/
def escaping : MeshDescription where
  shape := [18446744073709551615, 0, 2]
  names := ["\"dp\"", "\\t\x00\x1f\n", "é😀"]

/-- A dimension of the largest size. -/
def widest : TensorType := ⟨[18446744073709551615], .bf16⟩

/-- A description whose names need every kind of escape, and a tensor type of the largest size. -/
theorem stored_forms_read_back_escaping :
    (∀ size ∈ escaping.shape, size < wordLimit) ∧ escaping.alpha = [] ∧ escaping.beta = [] ∧
      ofText? (text escaping) = some escaping ∧
      (∃ bytes, toFile "mesh.json" true escaping = .ok bytes ∧
        ofFile "mesh.json" (some bytes) = .ok escaping ∧
          ∀ loaded : MeshDescription, ofFile "mesh.json" (some bytes) = .ok loaded →
            loaded.build = escaping.build) ∧
      (∀ size ∈ widest.shape, size < wordLimit) ∧ ofText? (compactText widest) = some widest := by
  have hshape : ∀ size ∈ escaping.shape, size < wordLimit := by decide
  have hsize : ∀ size ∈ widest.shape, size < wordLimit := by decide
  obtain ⟨hdescriptions, htensors, -⟩ := stored_forms_read_back
  obtain ⟨htext, hfile⟩ := hdescriptions escaping hshape rfl rfl
  exact ⟨hshape, rfl, rfl, htext, hfile "mesh.json", hsize, htensors widest hsize⟩

end Stored

end ShardPlan
