import Mathlib.Tactic.SplitIfs
import ShardPlan.Reshard.Route

/-! # Steps towards a layout

`Step target l move` says that `move` brings the layout `l` nearer to `target`: a dimension whose axes are
no prefix of the ones it shall have gives up its innermost axis, or, once there is no such dimension, a
dimension takes the next axis that it lacks. A `Run` is a list of moves each of which is a step. A dimension
is *settled* when its axes are a prefix of the ones it shall have, and then it stays settled
(`Run.settled`). Nothing here asks that axes are used once. -/

namespace ShardPlan

namespace Layout

theorem axes_dropAxis (l : Layout) (axis dim d : Nat) :
    (l.dropAxis axis dim).axes d =
      if dim = d then (l.axes d).filter fun a => a != axis else l.axes d := by
  rw [dropAxis, axes_withAxes]
  split_ifs with h <;> simp [h]

theorem axes_pushAxis (l : Layout) (axis dim d : Nat) :
    (l.pushAxis axis dim).axes d = if dim = d then l.axes d ++ [axis] else l.axes d := by
  rw [pushAxis, axes_withAxes]
  split_ifs with h <;> simp [h]

end Layout

namespace Route

/-! ### Steps -/

/-- **The steps from `l` towards `target`.** -/
inductive Step (target l : Layout) : Move → Prop
  /-- An unsettled dimension gathers its innermost axis. -/
  | gather {axis dim : Nat} {rest : List Nat} (hlast : l.axes dim = rest ++ [axis])
      (hdim : ¬ l.axes dim <+: target.axes dim) : Step target l (.gather axis dim)
  /-- The innermost axis of an unsettled dimension is the next one that another dimension shall have. -/
  | exchange {axis dim dest : Nat} {rest : List Nat} (hlast : l.axes dim = rest ++ [axis])
      (hdim : ¬ l.axes dim <+: target.axes dim) (hne : dest ≠ dim)
      (hnext : l.axes dest ++ [axis] <+: target.axes dest) : Step target l (.exchange axis dim dest)
  /-- All dimensions are settled, and the axis is the next one that the dimension shall have. -/
  | split {axis dim : Nat} (hall : ∀ d, l.axes d <+: target.axes d)
      (hnext : l.axes dim ++ [axis] <+: target.axes dim) : Step target l (.split axis dim)

section Apply

variable (l : Layout) (axis dim d : Nat)

theorem axes_gather : ((Move.gather axis dim).apply l).axes d =
    if dim = d then (l.axes d).filter fun a => a != axis else l.axes d :=
  l.axes_dropAxis axis dim d

theorem axes_exchange {dest : Nat} (hne : dest ≠ dim) :
    ((Move.exchange axis dim dest).apply l).axes d =
      if dim = d then (l.axes d).filter fun a => a != axis
      else if dest = d then l.axes d ++ [axis] else l.axes d := by
  rw [Move.apply, Layout.axes_pushAxis, Layout.axes_dropAxis]
  split_ifs with h1 h2
  · exact absurd (h1.trans h2.symm) hne
  · rfl
  · rfl
  · rfl

theorem axes_split : ((Move.split axis dim).apply l).axes d =
    if dim = d then l.axes d ++ [axis] else l.axes d :=
  l.axes_pushAxis axis dim d

end Apply

variable {target l : Layout} {move : Move}

theorem Step.settled (h : Step target l move) {d : Nat} (hd : l.axes d <+: target.axes d) :
    (move.apply l).axes d <+: target.axes d := by
  cases h with
  | @gather axis dim rest hlast hdim =>
    rw [axes_gather]
    split_ifs with he
    · subst he; exact absurd hd hdim
    · exact hd
  | @exchange axis dim dest rest hlast hdim hne hnext =>
    rw [axes_exchange l axis dim d hne]
    split_ifs with he he'
    · subst he; exact absurd hd hdim
    · subst he'; exact hnext
    · exact hd
  | @split axis dim hall hnext =>
    rw [axes_split]
    split_ifs with he
    · subst he; exact hnext
    · exact hd

theorem Step.axes_eq_nil (h : Step target l move) {d : Nat} (hl : l.axes d = [])
    (ht : target.axes d = []) : (move.apply l).axes d = [] := by
  have hd := h.settled (d := d) (by rw [hl]; exact List.nil_prefix)
  rw [ht] at hd
  exact List.prefix_nil.mp hd

/-! ### Runs -/

/-- **Moves from a layout to a last one**, each of them a step towards `target`. -/
inductive Run (target : Layout) : Layout → List Move → Layout → Prop
  | nil (l : Layout) : Run target l [] l
  | cons {l last : Layout} {move : Move} {moves : List Move} (hstep : Step target l move)
      (hrun : Run target (move.apply l) moves last) : Run target l (move :: moves) last

namespace Run

variable {mid last : Layout} {moves moves' : List Move}

theorem applyAll_eq (h : Run target l moves last) : Move.applyAll moves l = last := by
  induction h with
  | nil l => rfl
  | cons hstep hrun ih => exact ih

theorem append (h : Run target l moves mid) (h' : Run target mid moves' last) :
    Run target l (moves ++ moves') last := by
  induction h with
  | nil l => exact h'
  | cons hstep hrun ih => exact .cons hstep (ih h')

/-- What each step preserves, a run preserves. -/
theorem invariant {P : Layout → Prop} (h : Run target l moves last)
    (hstep : ∀ {l move}, Step target l move → P l → P (move.apply l)) (hl : P l) : P last := by
  induction h with
  | nil l => exact hl
  | cons hs hrun ih => exact ih (hstep hs hl)

theorem settled (h : Run target l moves last) {d : Nat} (hd : l.axes d <+: target.axes d) :
    last.axes d <+: target.axes d :=
  h.invariant (P := fun l => l.axes d <+: target.axes d) (fun hs hl => hs.settled hl) hd

theorem axes_eq_nil (h : Run target l moves last) {d : Nat} (hl : l.axes d = [])
    (ht : target.axes d = []) : last.axes d = [] :=
  h.invariant (P := fun l => l.axes d = []) (fun hs hl => hs.axes_eq_nil hl ht) hl

theorem of_append : ∀ {moves : List Move} {l : Layout}, Run target l (moves ++ moves') last →
    Run target l moves (Move.applyAll moves l) ∧ Run target (Move.applyAll moves l) moves' last
  | [], l, h => ⟨.nil l, h⟩
  | move :: moves, l, h => by
    cases h with
    | cons hstep hrun =>
      obtain ⟨hdone, hleft⟩ := of_append hrun
      exact ⟨.cons hstep hdone, hleft⟩

end Run

end Route

end ShardPlan
