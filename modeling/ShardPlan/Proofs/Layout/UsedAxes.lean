import Mathlib.Data.List.Nodup
import Mathlib.Data.List.Pairwise
import ShardPlan.Layout.Basic

/-! # The axes that a layout uses

`usedAxes` lists the axes of all dimensions. That no axis is used twice, neither by one dimension nor by
two, is the statement `l.usedAxes.Nodup`; `nodup_usedAxes_iff` says so dimension by dimension. -/

namespace ShardPlan

theorem nodup_append_singleton_iff {axes : List Nat} {axis : Nat} :
    (axes ++ [axis]).Nodup ↔ axis ∉ axes ∧ axes.Nodup := by
  rw [← List.concat_eq_append, List.nodup_concat]

/-- Nothing is listed twice if no part lists anything twice, and what is listed tells which part it is in. -/
theorem nodup_flatMap_of_tell {α β : Type} {list : List α} {f : α → List β} (hlist : list.Nodup)
    (hf : ∀ a ∈ list, (f a).Nodup) (htell : ∀ a a' b, b ∈ f a → b ∈ f a' → a = a') :
    (list.flatMap f).Nodup :=
  List.nodup_flatMap.mpr ⟨hf, hlist.imp fun hne b hb hb' => hne (htell _ _ b hb hb')⟩

namespace Layout

/-- The axes of all split dimensions, dimension by dimension. -/
def usedAxes (l : Layout) : List Nat := l.partitions.flatMap Prod.snd

theorem mem_usedAxes {l : Layout} {axis : Nat} : axis ∈ l.usedAxes ↔ ∃ dim, axis ∈ l.axes dim := by
  simp only [usedAxes, List.mem_flatMap]
  constructor
  · rintro ⟨⟨dim, axes⟩, he, haxis⟩
    exact ⟨dim, by rwa [(mem_partitions.mp he).1]⟩
  · rintro ⟨dim, haxis⟩
    exact ⟨(dim, l.axes dim), mem_partitions.mpr ⟨rfl, List.ne_nil_of_mem haxis⟩, haxis⟩

theorem mem_axes_of_dimOfAxis? {l : Layout} {axis dim : Nat} (h : l.dimOfAxis? axis = some dim) :
    axis ∈ l.axes dim := by
  obtain ⟨e, he, rfl⟩ := Option.map_eq_some_iff.mp h
  have hmem : axis ∈ e.2 := by simpa using List.find?_some he
  rwa [(mem_partitions.mp (List.mem_of_find?_eq_some he)).1]

theorem partitions_ascending (l : Layout) : (l.partitions.map Prod.fst).Pairwise (· < ·) :=
  l.splits.keys_ascending.imp fun h => by simpa [Key.before] using h

theorem pairwise_partitions (l : Layout) : l.partitions.Pairwise fun e e' => e.1 ≠ e'.1 :=
  List.pairwise_map.mp l.splits.nodup_keys

/-- **No axis is used twice** if no dimension lists an axis twice and no two dimensions share one. -/
theorem nodup_usedAxes_iff {l : Layout} :
    l.usedAxes.Nodup ↔ (∀ dim, (l.axes dim).Nodup) ∧
      ∀ {axis dim dim' : Nat}, axis ∈ l.axes dim → axis ∈ l.axes dim' → dim = dim' := by
  have hpart : ∀ {axis dim : Nat}, axis ∈ l.axes dim → (dim, l.axes dim) ∈ l.partitions :=
    fun h => mem_partitions.mpr ⟨rfl, List.ne_nil_of_mem h⟩
  rw [usedAxes, List.nodup_flatMap]
  constructor
  · rintro ⟨hone, htwo⟩
    refine ⟨fun dim => ?_, fun {axis dim dim'} h h' => ?_⟩
    · rcases List.eq_nil_or_concat (l.axes dim) with h | ⟨axes, axis, h⟩
      · rw [h]; exact List.nodup_nil
      · have hmem : axis ∈ l.axes dim := by simp [h]
        exact hone _ (hpart hmem)
    · have : Std.Symm (Function.onFun List.Disjoint (Prod.snd : Nat × List Nat → List Nat)) :=
        ⟨fun _ _ hd => List.disjoint_symm hd⟩
      by_contra hne
      exact htwo.forall (hpart h) (hpart h') (fun he => hne (congrArg Prod.fst he)) h h'
  · rintro ⟨hone, htwo⟩
    refine ⟨fun ⟨dim, axes⟩ he => ?_, ?_⟩
    · obtain ⟨rfl, -⟩ := mem_partitions.mp he
      exact hone dim
    · refine l.pairwise_partitions.imp_of_mem fun {e e'} he he' hne axis h h' => hne ?_
      rw [← (mem_partitions.mp he).1] at h
      rw [← (mem_partitions.mp he').1] at h'
      exact htwo h h'

section Nodup

variable {l : Layout} (hl : l.usedAxes.Nodup)
include hl

theorem nodup_axes (dim : Nat) : (l.axes dim).Nodup := (nodup_usedAxes_iff.mp hl).1 dim

theorem dim_eq_of_mem {axis dim dim' : Nat} (h : axis ∈ l.axes dim) (h' : axis ∈ l.axes dim') :
    dim = dim' := (nodup_usedAxes_iff.mp hl).2 h h'

theorem nodup_of_last {dim axis : Nat} {rest : List Nat} (hlast : l.axes dim = rest ++ [axis]) :
    axis ∉ rest ∧ rest.Nodup := by
  have hdim := nodup_axes hl dim
  rwa [hlast, nodup_append_singleton_iff] at hdim

theorem filter_ne_of_last {dim axis : Nat} {rest : List Nat} (hlast : l.axes dim = rest ++ [axis]) :
    (l.axes dim).filter (fun a => a != axis) = rest := by
  have hnot := (nodup_of_last hl hlast).1
  have hrest : rest.filter (fun a => a != axis) = rest := by
    refine List.filter_eq_self.mpr fun a ha => ?_
    simp only [bne_iff_ne, ne_eq]
    rintro rfl
    exact hnot ha
  rw [hlast, List.filter_append, hrest]
  simp

end Nodup

end Layout

end ShardPlan
