import Mathlib.Logic.Function.Basic
import ShardPlan.Proofs.Layout.Pairs
import ShardPlan.Proofs.Reshard.Validity

/-! # Histories of a layout

A layout is made of pairs, and then changed: a dimension gets other axes, two dimensions are exchanged, or a
move is made. Each change acts on the axes of the dimensions alone (`Edit.axes_apply`), and so does a whole
history (`axes_edited`). However a layout came to be, it has no entry for a dimension without axes, so that
layouts with the same axes are the same one, and nothing has to be moved from one to the other
(`between_eq_identity_iff`). -/

namespace ShardPlan

namespace Layout

/-! ### Layouts of pairs -/

/-- The axes that the last pair of a dimension with any axes gives it, or none. -/
def lastAxes (pairs : List (Nat × List Nat)) (dim : Nat) : List Nat :=
  (((pairs.filter fun e => e.1 == dim && !e.2.isEmpty).getLast?).map Prod.snd).getD []

theorem axes_foldl_withAxes_eq (dim : Nat) : ∀ (pairs : List (Nat × List Nat)) (l : Layout),
    (pairs.foldl (fun l e => l.withAxes e.1 e.2) l).axes dim =
      (((pairs.filter fun e => e.1 == dim).getLast?).map Prod.snd).getD (l.axes dim)
  | [], _ => rfl
  | e :: pairs, l => by
    rw [List.foldl_cons, axes_foldl_withAxes_eq dim pairs, axes_withAxes]
    by_cases h : e.1 = dim
    · rw [if_pos h, List.filter_cons_of_pos (by simpa using h), List.getLast?_cons]
      cases (pairs.filter fun e => e.1 == dim).getLast? with
      | none => rfl
      | some last => rfl
    · rw [if_neg h, List.filter_cons_of_neg (by simpa using h)]

/-- **The axes that pairs give a dimension** are those of its last pair with any. -/
theorem axes_ofPairs (pairs : List (Nat × List Nat)) (dim : Nat) :
    (ofPairs pairs).axes dim = lastAxes pairs dim := by
  rw [ofPairs, axes_foldl_withAxes_eq, List.filter_filter, axes_replicated]
  rfl

theorem isReplicated_iff {l : Layout} : l.isReplicated = true ↔ ∀ dim, l.axes dim = [] := by
  rw [isReplicated, SortedMap.isEmpty, List.isEmpty_iff, List.eq_nil_iff_forall_not_mem]
  constructor
  · intro h dim
    by_contra hne
    exact h (dim, l.axes dim) (mem_partitions.mpr ⟨rfl, hne⟩)
  · rintro h ⟨dim, axes⟩ he
    obtain ⟨haxes, hne⟩ := mem_partitions.mp he
    exact hne (haxes.symm.trans (h dim))

/-! ### Changes -/

/-- **A change of a layout.** -/
inductive Edit where
  /-- A dimension is split along other axes. -/
  | withAxes (dim : Nat) (axes : List Nat)
  /-- Two dimensions are exchanged. -/
  | transposed (a b : Nat)
  /-- A move is made. An exchange without a destination is a gather. -/
  | move (move : Move)

namespace Edit

/-- The layout after a change. -/
def apply : Edit → Layout → Layout
  | withAxes dim axes, l => l.withAxes dim axes
  | transposed a b, l => l.transposed a b
  | move m, l => m.apply l

/-- The axes of all dimensions after a change. -/
def onAxes : Edit → (Nat → List Nat) → Nat → List Nat
  | withAxes dim axes, f => Function.update f dim axes
  | transposed a b, f => fun d => f (exchange a b d)
  | move (.gather axis dim), f => Function.update f dim ((f dim).filter fun a => a != axis)
  | move (.exchange axis dim dest), f =>
    let dropped := Function.update f dim ((f dim).filter fun a => a != axis)
    Function.update dropped dest (dropped dest ++ [axis])
  | move (.split axis dim), f => Function.update f dim (f dim ++ [axis])

theorem axes_withAxes_eq_update (l : Layout) (dim : Nat) (axes : List Nat) :
    (l.withAxes dim axes).axes = Function.update l.axes dim axes := by
  funext d
  rw [axes_withAxes, Function.update_apply]
  simp only [eq_comm]

/-- **A change acts on the axes** of the dimensions, whatever else is known of the layout. -/
theorem axes_apply (e : Edit) (l : Layout) : (e.apply l).axes = e.onAxes l.axes := by
  cases e with
  | withAxes dim axes => exact axes_withAxes_eq_update l dim axes
  | transposed a b => exact funext (l.axes_transposed a b)
  | move m =>
    cases m with
    | gather axis dim => exact axes_withAxes_eq_update l dim _
    | exchange axis dim dest =>
      rw [apply, Move.apply, pushAxis, axes_withAxes_eq_update, dropAxis, axes_withAxes_eq_update]
      rfl
    | split axis dim => exact axes_withAxes_eq_update l dim _

end Edit

/-- The layout of pairs after changes. Without pairs it was replicated before them. -/
def edited (pairs : List (Nat × List Nat)) (edits : List Edit) : Layout :=
  edits.foldl (fun l e => e.apply l) (ofPairs pairs)

/-- The axes that a history gives the dimensions. -/
def editedAxes (pairs : List (Nat × List Nat)) (edits : List Edit) : Nat → List Nat :=
  edits.foldl (fun f e => e.onAxes f) (lastAxes pairs)

theorem axes_edited (pairs : List (Nat × List Nat)) (edits : List Edit) :
    (edited pairs edits).axes = editedAxes pairs edits := by
  have hfold : ∀ (edits : List Edit) (l : Layout),
      (edits.foldl (fun l e => e.apply l) l).axes = edits.foldl (fun f e => e.onAxes f) l.axes := by
    intro edits
    induction edits with
    | nil => exact fun _ => rfl
    | cons e edits ih => exact fun l => by rw [List.foldl_cons, List.foldl_cons, ih, e.axes_apply]
  rw [edited, editedAxes, hfold, funext (axes_ofPairs pairs)]

/-! ### One form for each layout -/

theorem eq_iff_axes {l l' : Layout} : l = l' ↔ ∀ dim, l.axes dim = l'.axes dim :=
  ⟨fun h _ => h ▸ rfl, ext_axes⟩

/-- **Nothing is moved** exactly between equal layouts, as the moves between two lead from one to the
other. -/
theorem between_eq_identity_iff {K : Type} [Scalar K] {mesh : Mesh K} {t : TensorType}
    {source target : Layout} :
    Transition.between mesh t source target = .ok .identity ↔ source = target := by
  constructor
  · intro h
    have hmoves : Route.moves source target = [] := (Route.moves_of_between h).symm
    have hrun := Route.moves_run source target
    rw [hmoves] at hrun
    exact hrun.applyAll_eq
  · rintro rfl
    rw [Transition.between, if_pos rfl]
    rfl

/-- **Layouts have one form**, whatever their histories: they list the dimensions that are split, in
ascending order, with axes for each. So the axes decide whether two layouts are equal, whether one is
replicated, and whether the transition between two is the free one. -/
theorem edited_canonical {K : Type} [Scalar K] (mesh : Mesh K) (t : TensorType)
    (pairs pairs' : List (Nat × List Nat)) (edits edits' : List Edit) :
    (∀ dim, (edited pairs edits).axes dim = editedAxes pairs edits dim) ∧
    (∀ e ∈ (edited pairs edits).partitions, e.2 ≠ []) ∧
    ((edited pairs edits).partitions.map Prod.fst).Pairwise (· < ·) ∧
    (edited pairs edits = edited pairs' edits' ↔
      ∀ dim, (edited pairs edits).axes dim = (edited pairs' edits').axes dim) ∧
    ((edited pairs edits).isReplicated = true ↔ ∀ dim, (edited pairs edits).axes dim = []) ∧
    (Transition.between mesh t (edited pairs edits) (edited pairs' edits') = .ok .identity ↔
      ∀ dim, (edited pairs edits).axes dim = (edited pairs' edits').axes dim) ∧
    ∀ dim, (ofPairs pairs).axes dim = lastAxes pairs dim :=
  ⟨fun dim => congrFun (axes_edited pairs edits) dim, fun _ he => (mem_partitions.mp he).2,
    partitions_ascending _, eq_iff_axes, isReplicated_iff, between_eq_identity_iff.trans eq_iff_axes,
    axes_ofPairs pairs⟩

/-- A gather takes back a split, and a dimension that had no axes before has no entry after. -/
example : edited [(1, [0])] [.move (.split 1 2), .transposed 0 1, .move (.gather 1 2)] =
    edited [] [.withAxes 1 [2], .withAxes 0 [0], .withAxes 1 []] := by decide

end Layout

end ShardPlan
