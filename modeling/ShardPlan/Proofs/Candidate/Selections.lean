import Mathlib.Data.List.Lattice
import ShardPlan.Proofs.Candidate.Covers
import ShardPlan.Proofs.Layout.Spelling

/-! # What a linear layer is split along

A linear layer selects an axis for the batch, for the contracted dimension and for the features of its output,
or none (`Selection`). Its choices are those that the allowed selections come to (`mem_selections_iff`), one
from each (`choices_eq_map`, `nodup_selections`). A selection can be told from the name of its choice
(`Selection.name_injective`), and from the layouts (`Selection.Allowed.eq_of_layouts`). -/

namespace ShardPlan

namespace Linear

/-- **What a linear layer is split along**: an axis for the batch, for the contracted dimension and for the
features of the output, each of which may be missing. -/
structure Selection where
  batch : Option Nat := none
  contracted : Option Nat := none
  features : Option Nat := none

namespace Selection

/-- **The selections that are allowed**: at most one axis for the batch, if there is one, and at most one other
axis, either for the contracted dimension or for the features. -/
structure Allowed (inputRank axisCount : Nat) (sel : Selection) : Prop where
  batched : sel.batch ≠ none → 2 ≤ inputRank
  single : sel.contracted = none ∨ sel.features = none
  batch_lt : ∀ axis ∈ sel.batch, axis < axisCount
  contracted_lt : ∀ axis ∈ sel.contracted, axis < axisCount ∧ sel.batch ≠ some axis
  features_lt : ∀ axis ∈ sel.features, axis < axisCount ∧ sel.batch ≠ some axis

/-- The layouts of the input, the weight and the output in short. -/
def name (sel : Selection) : String :=
  let text (axis axis' : Option Nat) : String := String.join ([axis.toList, axis'.toList].map Layout.dimText)
  text sel.batch sel.features ++ " = " ++
    (text sel.batch sel.contracted ++ " x " ++ text sel.contracted sel.features)

/-- The choice that a selection comes to. -/
def choice (inputLast outputLast : Nat) (sel : Selection) : Choice where
  name := sel.name
  input := .ofPairs [(0, sel.batch.toList), (inputLast, sel.contracted.toList)]
  weight := .ofPairs [(0, sel.contracted.toList), (1, sel.features.toList)]
  output := .ofPairs [(0, sel.batch.toList), (outputLast, sel.features.toList)]
  sumOutput := sel.contracted
  sumWeightGradient := sel.batch
  sumInputGradient := sel.features

theorem toList_injective {axis axis' : Option Nat} (h : axis.toList = axis'.toList) : axis = axis' := by
  cases axis <;> cases axis' <;> simp_all

theorem isPlain_toList (axisCount : Nat) (axis : Option Nat) :
    Layout.IsPlain axisCount axis.toList := by
  cases axis with
  | none => exact .none
  | some axis => exact .one axis

/-- **A selection is told** from its name: the part for the output gives the axes of batch and features, the one
for the input that of the contracted dimension. -/
theorem name_injective {sel sel' : Selection} (h : sel.name = sel'.name) : sel = sel' := by
  have htell : ∀ {a b a' b' : Option Nat},
      String.join ([a.toList, b.toList].map Layout.dimText) =
        String.join ([a'.toList, b'.toList].map Layout.dimText) → a = a' ∧ b = b' := by
    intro a b a' b' h
    obtain ⟨hfirst, htail⟩ := List.cons.inj (Layout.map_dimText_of_join h)
    have hsecond := (List.cons.inj htail).1
    exact ⟨toList_injective ((isPlain_toList 0 a).eq_of_dimText (isPlain_toList 0 a') hfirst),
      toList_injective ((isPlain_toList 0 b).eq_of_dimText (isPlain_toList 0 b') hsecond)⟩
  have hblank := fun a b : Option Nat => Layout.blank_notMem_join [a.toList, b.toList]
  obtain ⟨houtput, h⟩ := eq_of_append_blank (hblank _ _) (hblank _ _) h
  obtain ⟨hinput, -⟩ := eq_of_append_blank (hblank _ _) (hblank _ _) h
  obtain ⟨hbatch, hfeatures⟩ := htell houtput
  obtain ⟨-, hcontracted⟩ := htell hinput
  cases sel; cases sel'
  simp_all

end Selection

/-- The selections of a single axis. -/
def singleSelections (inputRank axis : Nat) : List Selection :=
  (if 2 ≤ inputRank then [{ batch := some axis }] else []) ++
    [{ features := some axis }, { contracted := some axis }]

/-- The selections of an axis for the batch and another one. -/
def doubleSelections (a b : Nat) : List Selection :=
  [{ batch := some a, features := some b }, { batch := some a, contracted := some b }]

/-- All selections on a mesh with some number of axes. -/
def selections (inputRank axisCount : Nat) : List Selection :=
  let axes := List.range axisCount
  [⟨none, none, none⟩] ++ axes.flatMap (singleSelections inputRank)
    ++ (if 2 ≤ inputRank then
        axes.flatMap fun a => (axes.filter (· != a)).flatMap (doubleSelections a)
      else [])

variable {inputRank inputLast outputLast axisCount : Nat} {sel : Selection}

theorem names_of_selections (a b : Nat) :
    Selection.name ⟨none, none, none⟩ = "RR = RR x RR" ∧
    Selection.name ⟨some a, none, none⟩ = s!"S{a}R = S{a}R x RR" ∧
    Selection.name ⟨none, none, some a⟩ = s!"RS{a} = RR x RS{a}" ∧
    Selection.name ⟨none, some a, none⟩ = s!"RR = RS{a} x S{a}R" ∧
    Selection.name ⟨some a, none, some b⟩ = s!"S{a}S{b} = S{a}R x RS{b}" ∧
    Selection.name ⟨some a, some b, none⟩ = s!"S{a}R = S{a}S{b} x S{b}R" := by
  have hself : ∀ text : String, toString text = text := fun _ => rfl
  have hnone : Layout.dimText [] = "R" := rfl
  have hone : ∀ axis, Layout.dimText [axis] = "S" ++ toString axis := fun axis => by
    simp [Layout.dimText, String.join]
  simp [← String.toList_inj, Selection.name, hnone, hone, hself, String.join]

theorem batched_iff : 0 < inputRank - 1 ↔ 2 ≤ inputRank := by omega

theorem singleChoices_eq (inputRank outputLast axis : Nat) :
    singleChoices (inputRank - 1) outputLast axis =
      (singleSelections inputRank axis).map (Selection.choice (inputRank - 1) outputLast) := by
  obtain ⟨-, hbatch, hfeatures, hcontracted, -, -⟩ := names_of_selections axis axis
  unfold singleChoices singleSelections
  simp only [batched_iff]
  split_ifs
  · simp only [List.map_append, List.map_cons, List.map_nil, Selection.choice, hbatch, hfeatures, hcontracted]
    rfl
  · simp only [List.map_append, List.map_cons, List.map_nil, Selection.choice, hfeatures, hcontracted]
    rfl

theorem doubleChoices_eq (inputLast outputLast a b : Nat) :
    doubleChoices inputLast outputLast a b =
      (doubleSelections a b).map (Selection.choice inputLast outputLast) := by
  obtain ⟨-, -, -, -, hfeatures, hcontracted⟩ := names_of_selections a b
  simp only [doubleSelections, List.map_cons, List.map_nil, Selection.choice, hfeatures, hcontracted]
  rfl

theorem choices_eq_map (inputRank outputLast axisCount : Nat) :
    choices (inputRank - 1) outputLast axisCount =
      (selections inputRank axisCount).map (Selection.choice (inputRank - 1) outputLast) := by
  have hsingle : singleChoices (inputRank - 1) outputLast = fun axis => _ :=
    funext (singleChoices_eq inputRank outputLast)
  have hdouble : doubleChoices (inputRank - 1) outputLast = fun a b => _ :=
    funext fun a => funext (doubleChoices_eq (inputRank - 1) outputLast a)
  have hnone : Selection.choice (inputRank - 1) outputLast ⟨none, none, none⟩ =
      { name := "RR = RR x RR" } := by
    rw [Selection.choice, (names_of_selections 0 0).1]
    rfl
  simp only [choices, selections, hsingle, hdouble, batched_iff, List.map_append, List.map_flatMap,
    List.map_cons, List.map_nil, hnone]
  split_ifs
  · simp only [List.map_flatMap]
  · rfl

theorem mem_singleSelections {axis : Nat} : sel ∈ singleSelections inputRank axis ↔
    (2 ≤ inputRank ∧ sel = ⟨some axis, none, none⟩) ∨ sel = ⟨none, none, some axis⟩ ∨
      sel = ⟨none, some axis, none⟩ := by
  unfold singleSelections
  split_ifs with hbatch <;> simp [hbatch]

theorem mem_doubleSelections {a b : Nat} : sel ∈ doubleSelections a b ↔
    sel = ⟨some a, none, some b⟩ ∨ sel = ⟨some a, some b, none⟩ := by
  simp [doubleSelections]

theorem mem_selections : sel ∈ selections inputRank axisCount ↔ sel = ⟨none, none, none⟩ ∨
    (∃ axis < axisCount, (2 ≤ inputRank ∧ sel = ⟨some axis, none, none⟩) ∨
      sel = ⟨none, none, some axis⟩ ∨ sel = ⟨none, some axis, none⟩) ∨
    (2 ≤ inputRank ∧ ∃ a < axisCount, ∃ b < axisCount, a ≠ b ∧
      (sel = ⟨some a, none, some b⟩ ∨ sel = ⟨some a, some b, none⟩)) := by
  simp only [selections, List.mem_append, List.mem_singleton, List.mem_flatMap, List.mem_range,
    mem_singleSelections, or_assoc]
  refine or_congr Iff.rfl (or_congr Iff.rfl ?_)
  split_ifs with hbatch
  · simp only [List.mem_flatMap, List.mem_range, List.mem_filter, bne_iff_ne, mem_doubleSelections,
      hbatch, true_and, and_assoc, ne_comm]
  · simp [hbatch]

/-- **The selections that are listed** are those that are allowed. -/
theorem mem_selections_iff : sel ∈ selections inputRank axisCount ↔ sel.Allowed inputRank axisCount := by
  rw [mem_selections]
  constructor
  · rintro (rfl | ⟨axis, haxis, (⟨hbatch, rfl⟩ | rfl | rfl)⟩ | ⟨hbatch, a, ha, b, hb, hne, (rfl | rfl)⟩)
    all_goals constructor <;> simp_all
  · rintro ⟨hbatched, hsingle, hbatch, hcontracted, hfeatures⟩
    rcases sel with ⟨_ | a, _ | k, _ | f⟩
    · exact .inl rfl
    · exact .inr (.inl ⟨f, (hfeatures f rfl).1, .inr (.inl rfl)⟩)
    · exact .inr (.inl ⟨k, (hcontracted k rfl).1, .inr (.inr rfl)⟩)
    · simp at hsingle
    · exact .inr (.inl ⟨a, hbatch a rfl, .inl ⟨hbatched (by simp), rfl⟩⟩)
    · obtain ⟨hf, hne⟩ := hfeatures f rfl
      exact .inr (.inr ⟨hbatched (by simp), a, hbatch a rfl, f, hf, by simpa using hne, .inl rfl⟩)
    · obtain ⟨hk, hne⟩ := hcontracted k rfl
      exact .inr (.inr ⟨hbatched (by simp), a, hbatch a rfl, k, hk, by simpa using hne, .inr rfl⟩)
    · simp at hsingle

theorem nodup_flatMap_singleSelections (inputRank axisCount : Nat) :
    ((List.range axisCount).flatMap (singleSelections inputRank)).Nodup := by
  refine nodup_flatMap_of_tell List.nodup_range (fun axis _ => ?_) fun axis axis' sel hsel hsel' => ?_
  · unfold singleSelections
    split_ifs <;> simp
  · rw [mem_singleSelections] at hsel hsel'
    rcases hsel with ⟨-, rfl⟩ | rfl | rfl <;> simp_all

/-- The first axis is for the batch, and the second tells which of its selections it is. -/
theorem nodup_flatMap_doubleSelections (axisCount : Nat) :
    ((List.range axisCount).flatMap fun a =>
      ((List.range axisCount).filter (· != a)).flatMap (doubleSelections a)).Nodup := by
  refine nodup_flatMap_of_tell List.nodup_range (fun a _ => ?_) fun a a' sel hsel hsel' => ?_
  · refine nodup_flatMap_of_tell (List.nodup_range.filter _) (fun b _ => by simp [doubleSelections])
      fun b b' sel hsel hsel' => ?_
    rw [mem_doubleSelections] at hsel hsel'
    rcases hsel with rfl | rfl <;> simp_all
  · obtain ⟨b, -, hsel⟩ := List.mem_flatMap.mp hsel
    obtain ⟨b', -, hsel'⟩ := List.mem_flatMap.mp hsel'
    rw [mem_doubleSelections] at hsel hsel'
    rcases hsel with rfl | rfl <;> simp_all

/-- **No selection is listed twice.** The families are told apart by how many axes a selection has. -/
theorem nodup_selections (inputRank axisCount : Nat) : (selections inputRank axisCount).Nodup := by
  refine ((List.nodup_singleton _).append (nodup_flatMap_singleSelections inputRank axisCount) ?_).append
    ?_ ?_
  · rintro sel hsel hsel'
    obtain ⟨axis, -, hsel'⟩ := List.mem_flatMap.mp hsel'
    rw [List.mem_singleton.mp hsel, mem_singleSelections] at hsel'
    simp at hsel'
  · split_ifs
    · exact nodup_flatMap_doubleSelections axisCount
    · exact List.nodup_nil
  · rintro sel hsel hsel'
    split_ifs at hsel'
    · obtain ⟨a, -, hsel'⟩ := List.mem_flatMap.mp hsel'
      obtain ⟨b, -, hsel'⟩ := List.mem_flatMap.mp hsel'
      rcases List.mem_append.mp hsel with hsel | hsel
      · rw [List.mem_singleton.mp hsel, mem_doubleSelections] at hsel'
        simp at hsel'
      · obtain ⟨axis, -, hsel⟩ := List.mem_flatMap.mp hsel
        rw [mem_singleSelections] at hsel
        rw [mem_doubleSelections] at hsel'
        rcases hsel with ⟨-, rfl⟩ | rfl | rfl <;> simp_all
    · exact absurd hsel' List.not_mem_nil

/-! ### Layouts -/

/-- The layouts that a choice gives the operands. -/
def layouts (op : Linear) (c : Choice) : List (Operand × Layout) :=
  [(op.input, c.input), (op.weight, c.weight)] ++
    (op.bias.toList.map fun bias => (bias, op.biasLayout c)) ++ [(op.output, c.output)]

/-- **A selection that is allowed is told** from the layouts of its choice: the axes of the contracted dimension
and of the features split the weight, and that of the batch splits the input. -/
theorem Selection.Allowed.eq_of_layouts {op : Linear} {sel' : Selection} (h : sel.Allowed inputRank axisCount)
    (h' : sel'.Allowed inputRank axisCount)
    (heq : op.layouts (sel.choice (inputRank - 1) outputLast) =
      op.layouts (sel'.choice (inputRank - 1) outputLast)) : sel = sel' := by
  obtain ⟨hinput, htail⟩ := List.cons.inj heq
  have hinput := (Prod.mk.inj hinput).2
  have hweight := (Prod.mk.inj (List.cons.inj htail).1).2
  have hcontracted : sel.contracted = sel'.contracted := by
    have haxes := congrArg (fun l => l.axes 0) hweight
    simp only [Selection.choice, (Layout.axes_ofPairs_pair Nat.zero_ne_one _ _).1] at haxes
    exact Selection.toList_injective haxes
  have hfeatures : sel.features = sel'.features := by
    have haxes := congrArg (fun l => l.axes 1) hweight
    simp only [Selection.choice, (Layout.axes_ofPairs_pair Nat.zero_ne_one _ _).2] at haxes
    exact Selection.toList_injective haxes
  have hbatch : sel.batch = sel'.batch := by
    by_cases hrank : 2 ≤ inputRank
    · have hne : 0 ≠ inputRank - 1 := by omega
      have haxes := congrArg (fun l => l.axes 0) hinput
      simp only [Selection.choice, (Layout.axes_ofPairs_pair hne _ _).1] at haxes
      exact Selection.toList_injective haxes
    · rw [not_not.mp (mt h.batched hrank), not_not.mp (mt h'.batched hrank)]
  cases sel; cases sel'
  simp_all

end Linear

end ShardPlan
