import ShardPlan.Proofs.Layout.UsedAxes
import ShardPlan.Proofs.Reshard.Step

/-! # Moves as relocations of an axis

When axes are used once, a step takes its axis from the end of one dimension, the giver, and puts it at
the end of another, the taker; a gather has no taker and a split no giver. `Relocates` states this as one
equation for every dimension, in which both layouts and both roles are exchanged by the inverse move.
What a step does follows from it: which dimension has the axis before and after (`Step.mem_axes_iff`,
`Step.mem_axes_apply_iff`), that axes are still used once (`Step.nodup_usedAxes`), and that the inverse
move leads back (`Step.inverse_apply`). -/

namespace ShardPlan

namespace Move

/-- The dimension that gives up the axis. -/
def giver? : Move → Option Nat
  | gather _ dim => some dim
  | exchange _ dim _ => some dim
  | split _ _ => none

/-- The dimension that takes the axis. -/
def taker? : Move → Option Nat
  | gather _ _ => none
  | exchange _ _ dest => some dest
  | split _ dim => some dim

@[simp]
theorem axis_inverse (move : Move) : move.inverse.axis = move.axis := by cases move <;> rfl

@[simp]
theorem giver?_inverse (move : Move) : move.inverse.giver? = move.taker? := by cases move <;> rfl

@[simp]
theorem taker?_inverse (move : Move) : move.inverse.taker? = move.giver? := by cases move <;> rfl

theorem eq_gather {move : Move} {dim : Nat} (hg : move.giver? = some dim) (hd : move.taker? = none) :
    move = gather move.axis dim := by
  cases move <;> simp_all [giver?, taker?, axis]

theorem eq_exchange {move : Move} {dim dest : Nat} (hg : move.giver? = some dim)
    (hd : move.taker? = some dest) : move = exchange move.axis dim dest := by
  cases move <;> simp_all [giver?, taker?, axis]

theorem eq_split {move : Move} {dest : Nat} (hg : move.giver? = none) (hd : move.taker? = some dest) :
    move = split move.axis dest := by
  cases move <;> simp_all [giver?, taker?, axis]

/-- What dimension `d` has beyond its other axes if it is the dimension `dim?`. -/
def extra (move : Move) (dim? : Option Nat) (d : Nat) : List Nat :=
  if dim? = some d then [move.axis] else []

/-- **The axis goes from the end of the giver in `l` to the end of the taker in `next`.** -/
def Relocates (move : Move) (l next : Layout) : Prop :=
  ∀ d, l.axes d ++ move.extra move.taker? d = next.axes d ++ move.extra move.giver? d

variable {move : Move} {l next : Layout}

theorem Relocates.inverse (h : move.Relocates l next) : move.inverse.Relocates next l := by
  intro d
  have hd := h d
  simp only [extra, axis_inverse, giver?_inverse, taker?_inverse] at hd ⊢
  exact hd.symm

section

variable (h : move.Relocates l next)
include h

theorem Relocates.of_giver (hne : move.giver? ≠ move.taker?) {d : Nat} (hd : move.giver? = some d) :
    l.axes d = next.axes d ++ [move.axis] := by
  have hdim := h d
  rwa [extra, extra, if_neg (fun he => hne (hd.trans he.symm)), if_pos hd, List.append_nil] at hdim

theorem Relocates.of_taker (hne : move.giver? ≠ move.taker?) {d : Nat} (hd : move.taker? = some d) :
    next.axes d = l.axes d ++ [move.axis] := by
  have hdim := h d
  rw [extra, extra, if_pos hd, if_neg (fun he => hne (he.trans hd.symm)), List.append_nil] at hdim
  exact hdim.symm

theorem Relocates.of_other {d : Nat} (hg : move.giver? ≠ some d) (ht : move.taker? ≠ some d) :
    next.axes d = l.axes d := by
  have hdim := h d
  rw [extra, extra, if_neg hg, if_neg ht, List.append_nil, List.append_nil] at hdim
  exact hdim.symm

theorem Relocates.mem_axes_of_ne {axis d : Nat} (hne : axis ≠ move.axis) :
    axis ∈ next.axes d ↔ axis ∈ l.axes d := by
  have hextra : ∀ dim?, axis ∉ move.extra dim? d := by
    intro dim?
    unfold extra
    split_ifs <;> simp [hne]
  have hmem : axis ∈ l.axes d ++ move.extra move.taker? d ↔
      axis ∈ next.axes d ++ move.extra move.giver? d := by rw [h d]
  simpa [hextra] using hmem.symm

theorem Relocates.mem_usedAxes_of_ne {axis : Nat} (hne : axis ≠ move.axis) :
    axis ∈ next.usedAxes ↔ axis ∈ l.usedAxes := by
  rw [Layout.mem_usedAxes, Layout.mem_usedAxes]
  exact exists_congr fun d => h.mem_axes_of_ne hne

end

end Move

/-- A move between different dimensions that relocates an axis of a layout leads to the layout that it
relocates to, if no axis is used twice. -/
theorem Move.Relocates.apply_eq {move : Move} {l next : Layout} (h : move.Relocates l next)
    (hne : move.giver? ≠ move.taker?) (hl : l.usedAxes.Nodup) : move.apply l = next := by
  refine Layout.ext_axes fun d => ?_
  cases move with
  | gather axis dim =>
    rw [Route.axes_gather]
    split_ifs with hd
    · subst hd
      exact Layout.filter_ne_of_last hl (h.of_giver hne rfl)
    · exact (h.of_other (by simpa [Move.giver?] using hd) (by simp [Move.taker?])).symm
  | exchange axis dim dest =>
    have hdest : dest ≠ dim := fun he => hne (by simp [Move.giver?, Move.taker?, he])
    rw [Route.axes_exchange l axis dim d hdest]
    split_ifs with hd hd'
    · subst hd
      exact Layout.filter_ne_of_last hl (h.of_giver hne rfl)
    · subst hd'
      exact (h.of_taker hne rfl).symm
    · exact (h.of_other (by simpa [Move.giver?] using hd) (by simpa [Move.taker?] using hd')).symm
  | split axis dim =>
    rw [Route.axes_split]
    split_ifs with hd
    · subst hd
      exact (h.of_taker hne rfl).symm
    · exact (h.of_other (by simp [Move.giver?]) (by simpa [Move.taker?] using hd)).symm

namespace Route

variable {target l last : Layout} {move : Move} {moves : List Move}

theorem Step.giver_ne_taker (h : Step target l move) : move.giver? ≠ move.taker? := by
  cases h with
  | gather hlast hdim => simp [Move.giver?, Move.taker?]
  | exchange hlast hdim hne hnext => simpa [Move.giver?, Move.taker?] using hne.symm
  | split hall hnext => simp [Move.giver?, Move.taker?]

theorem Step.not_settled_of_giver (h : Step target l move) {d : Nat} (hd : move.giver? = some d) :
    ¬ l.axes d <+: target.axes d := by
  cases h with
  | gather hlast hdim => cases hd; exact hdim
  | exchange hlast hdim hne hnext => cases hd; exact hdim
  | split hall hnext => exact nomatch hd

theorem Step.next_of_taker (h : Step target l move) {d : Nat} (hd : move.taker? = some d) :
    l.axes d ++ [move.axis] <+: target.axes d := by
  cases h with
  | gather hlast hdim => exact nomatch hd
  | exchange hlast hdim hne hnext => cases hd; exact hnext
  | split hall hnext => cases hd; exact hnext

theorem Step.mem_of_taker (h : Step target l move) {d : Nat} (hd : move.taker? = some d) :
    move.axis ∈ target.axes d := (h.next_of_taker hd).subset (by simp)

section Nodup

variable (h : Step target l move) (hl : l.usedAxes.Nodup)
include h hl

/-- **A step relocates its axis.** -/
theorem Step.relocates : move.Relocates l (move.apply l) := by
  intro d
  cases h with
  | @gather axis dim rest hlast hdim =>
    rw [axes_gather]
    by_cases hd : dim = d
    · subst hd
      rw [if_pos rfl, Layout.filter_ne_of_last hl hlast, hlast]
      simp [Move.extra, Move.giver?, Move.taker?, Move.axis]
    · simp [Move.extra, Move.giver?, Move.taker?, hd]
  | @exchange axis dim dest rest hlast hdim hne hnext =>
    rw [axes_exchange l axis dim d hne]
    by_cases hd : dim = d
    · subst hd
      rw [if_pos rfl, Layout.filter_ne_of_last hl hlast, hlast]
      simp [Move.extra, Move.giver?, Move.taker?, Move.axis, hne]
    · by_cases hd' : dest = d <;> simp [Move.extra, Move.giver?, Move.taker?, Move.axis, hd, hd']
  | @split axis dim hall hnext =>
    rw [axes_split]
    by_cases hd : dim = d <;> simp [Move.extra, Move.giver?, Move.taker?, Move.axis, hd]

variable (ht : target.usedAxes.Nodup)
include ht

theorem Step.mem_axes_iff {d : Nat} : move.axis ∈ l.axes d ↔ move.giver? = some d := by
  constructor
  · intro hmem
    cases h with
    | @gather axis dim rest hlast hdim =>
      have hdim' : axis ∈ l.axes dim := by simp [hlast]
      exact congrArg some (Layout.dim_eq_of_mem hl hdim' hmem)
    | @exchange axis dim dest rest hlast hdim hne hnext =>
      have hdim' : axis ∈ l.axes dim := by simp [hlast]
      exact congrArg some (Layout.dim_eq_of_mem hl hdim' hmem)
    | @split axis dim hall hnext =>
      -- all dimensions are settled, so the axis could only be where the target has it
      have hdim' : axis ∈ target.axes dim := hnext.subset (by simp)
      have hd : d = dim := Layout.dim_eq_of_mem ht ((hall d).subset hmem) hdim'
      subst hd
      have hnodup := (Layout.nodup_axes ht d).sublist hnext.sublist
      exact absurd hmem (nodup_append_singleton_iff.mp hnodup).1
  · intro hd
    have hlast := (h.relocates hl).of_giver h.giver_ne_taker hd
    simp [hlast]

theorem Step.mem_axes_apply_iff {d : Nat} :
    move.axis ∈ (move.apply l).axes d ↔ move.taker? = some d := by
  have hrel := h.relocates hl
  have hne := h.giver_ne_taker
  by_cases hg : move.giver? = some d
  · have hnot := (Layout.nodup_of_last hl (hrel.of_giver hne hg)).1
    rw [← hg]
    exact ⟨fun hmem => absurd hmem hnot, fun he => absurd he.symm hne⟩
  · have hbefore : move.axis ∉ l.axes d := fun hmem => hg ((h.mem_axes_iff hl ht).mp hmem)
    by_cases ht' : move.taker? = some d
    · simp [hrel.of_taker hne ht', ht']
    · rw [hrel.of_other hg ht']
      exact ⟨fun hmem => absurd hmem hbefore, fun he => absurd he ht'⟩

/-- **After a step no axis is used twice** if none was before. -/
theorem Step.nodup_usedAxes : (move.apply l).usedAxes.Nodup := by
  have hrel := h.relocates hl
  have hne := h.giver_ne_taker
  refine Layout.nodup_usedAxes_iff.mpr ⟨fun d => ?_, fun {axis d d'} hd hd' => ?_⟩
  · by_cases hg : move.giver? = some d
    · exact (Layout.nodup_of_last hl (hrel.of_giver hne hg)).2
    · by_cases ht' : move.taker? = some d
      · have hbefore : move.axis ∉ l.axes d := fun hmem => hg ((h.mem_axes_iff hl ht).mp hmem)
        rw [hrel.of_taker hne ht']
        exact nodup_append_singleton_iff.mpr ⟨hbefore, Layout.nodup_axes hl d⟩
      · rw [hrel.of_other hg ht']
        exact Layout.nodup_axes hl d
  · by_cases ha : axis = move.axis
    · subst ha
      rw [h.mem_axes_apply_iff hl ht] at hd hd'
      exact Option.some.inj (hd.symm.trans hd')
    · rw [hrel.mem_axes_of_ne ha] at hd hd'
      exact Layout.dim_eq_of_mem hl hd hd'

theorem Step.usedAxes_perm {dim dest : Nat} (hg : move.giver? = some dim) (hd : move.taker? = some dest) :
    (move.apply l).usedAxes.Perm l.usedAxes := by
  have hrel := h.relocates hl
  rw [List.perm_ext_iff_of_nodup (h.nodup_usedAxes hl ht) hl]
  intro axis
  rw [Layout.mem_usedAxes, Layout.mem_usedAxes]
  by_cases ha : axis = move.axis
  · subst ha
    have hbefore : move.axis ∈ l.axes dim := (h.mem_axes_iff hl ht).mpr hg
    have hafter : move.axis ∈ (move.apply l).axes dest := (h.mem_axes_apply_iff hl ht).mpr hd
    exact ⟨fun _ => ⟨dim, hbefore⟩, fun _ => ⟨dest, hafter⟩⟩
  · rw [← Layout.mem_usedAxes, ← Layout.mem_usedAxes]
    exact hrel.mem_usedAxes_of_ne ha

/-- **The inverse move leads back.** -/
theorem Step.inverse_apply : move.inverse.apply (move.apply l) = l := by
  refine (h.relocates hl).inverse.apply_eq ?_ (h.nodup_usedAxes hl ht)
  simpa using h.giver_ne_taker.symm

end Nodup

end Route

end ShardPlan
