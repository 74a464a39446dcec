import ShardPlan.Collections.SortedMap

/-! # Layouts

A layout says along which mesh axes each dimension of a tensor is split, the outermost axis first. A
dimension that is not split is replicated and has no entry, so a layout is determined by the axes of
all dimensions (`Layout.ext_axes`). A layout knows neither the tensor nor the mesh. -/

namespace ShardPlan

/-- The axes that split each dimension. -/
structure Layout where
  splits : SortedMap Nat (List Nat)
  get?_ne_nil : ∀ dim, splits.get? dim ≠ some []

namespace Layout

instance : DecidableEq Layout := fun l l' =>
  decidable_of_iff (l.splits = l'.splits) <| by cases l; cases l'; simp

instance : Hashable Layout := ⟨fun l => hash l.splits.entries⟩

/-- The layout that splits no dimension. -/
def replicated : Layout := ⟨.empty, nofun⟩

instance : Inhabited Layout := ⟨replicated⟩

/-- The axes that split a dimension, none if it is replicated. -/
def axes (l : Layout) (dim : Nat) : List Nat := (l.splits.get? dim).getD []

/-- The dimensions that are split, in ascending order, with their axes. -/
def partitions (l : Layout) : List (Nat × List Nat) := l.splits.entries

/-- The layout in which `dim` is split along `axes`, and is replicated if there are none. -/
def withAxes (l : Layout) (dim : Nat) (axes : List Nat) : Layout :=
  if h : axes = [] then
    ⟨l.splits.erase dim, fun d => by
      rw [SortedMap.get?_erase]
      split
      · exact nofun
      · exact l.get?_ne_nil d⟩
  else
    ⟨l.splits.insert dim axes, fun d => by
      rw [SortedMap.get?_insert]
      split
      · exact fun he => h (Option.some.inj he)
      · exact l.get?_ne_nil d⟩

/-- The layout of pairs of a dimension and its axes. Pairs without axes are dropped, and of the others
the last of a dimension wins. -/
def ofPairs (pairs : List (Nat × List Nat)) : Layout :=
  (pairs.filter fun e => !e.2.isEmpty).foldl (fun l e => l.withAxes e.1 e.2) replicated

/-- Whether no dimension is split. -/
def isReplicated (l : Layout) : Bool := l.splits.isEmpty

/-- The first dimension that an axis splits. -/
def dimOfAxis? (l : Layout) (axis : Nat) : Option Nat :=
  (l.partitions.find? fun e => e.2.contains axis).map Prod.fst

/-- The dimension that `dim` becomes when `a` and `b` are exchanged. -/
def exchange (a b dim : Nat) : Nat := if dim = a then b else if dim = b then a else dim

/-- The layout with the axes of two dimensions exchanged. -/
def transposed (l : Layout) (a b : Nat) : Layout :=
  ofPairs (l.partitions.map fun e => (exchange a b e.1, e.2))

/-- Layouts are ordered by their partitions, compared from the first on. -/
def compare (l l' : Layout) : Ordering :=
  List.compareLex (compareLex (compareOn Prod.fst)
    (fun e e' => List.compareLex Ord.compare e.2 e'.2)) l.partitions l'.partitions

/-! ### The axes of a layout -/

@[simp]
theorem axes_replicated (dim : Nat) : replicated.axes dim = [] := rfl

/-- Setting the axes of one dimension leaves the others as they are. -/
theorem axes_withAxes (l : Layout) (dim : Nat) (axes : List Nat) (d : Nat) :
    (l.withAxes dim axes).axes d = if dim = d then axes else l.axes d := by
  unfold withAxes
  split
  · rename_i h
    rw [Layout.axes, SortedMap.get?_erase]
    split
    · exact h.symm
    · rfl
  · rw [Layout.axes, SortedMap.get?_insert]
    split
    · rfl
    · rfl

/-- A dimension is listed with its axes if it has any. -/
theorem mem_partitions {l : Layout} {dim : Nat} {axes : List Nat} :
    (dim, axes) ∈ l.partitions ↔ l.axes dim = axes ∧ axes ≠ [] := by
  rw [partitions, ← SortedMap.get?_eq_some_iff, Layout.axes]
  have h := l.get?_ne_nil dim
  cases hget : l.splits.get? dim with
  | none => simp
  | some a =>
    rw [hget] at h
    simp only [Option.some.injEq, Option.getD_some]
    exact ⟨fun he => ⟨he, fun hn => h (by rw [he, hn])⟩, fun he => he.1⟩

/-- Two layouts with the same axes for all dimensions are equal. -/
theorem ext_axes {l l' : Layout} (h : ∀ dim, l.axes dim = l'.axes dim) : l = l' := by
  obtain ⟨m, hm⟩ := l
  obtain ⟨m', hm'⟩ := l'
  suffices m = m' by cases this; rfl
  refine SortedMap.ext_get? fun dim => ?_
  have hd := h dim
  have h1 := hm dim
  have h2 := hm' dim
  simp only [axes] at hd
  cases hg : m.get? dim <;> cases hg' : m'.get? dim <;> simp_all

end Layout

end ShardPlan
