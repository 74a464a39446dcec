import ShardPlan.Proofs.Reshard.Validity

/-! # The moves along each axis

When axes are used once, a route moves an axis only if it has to (`moves_along_each_axis`). An axis that is
*kept*, since it lies in the longest common prefix of what a dimension has and what it shall have, is never
moved, and neither is one that a move has just brought to its dimension. So an axis has at most one move
that takes it away and one that puts it in place, and these are one exchange or a gather and a split.
Splits come last, since a dimension only takes axes when all are settled. -/

namespace ShardPlan

/-! ### Common prefixes -/

/-- The longest common prefix of two lists of axes. -/
def commonPrefix : List Nat → List Nat → List Nat
  | a :: axes, b :: axes' => if a = b then a :: commonPrefix axes axes' else []
  | _, _ => []

theorem isPrefix_commonPrefix_iff : ∀ {before axes axes' : List Nat},
    before <+: commonPrefix axes axes' ↔ before <+: axes ∧ before <+: axes'
  | [], axes, axes' => by simp
  | c :: before, [], axes' => by simp [commonPrefix]
  | c :: before, a :: axes, [] => by simp [commonPrefix]
  | c :: before, a :: axes, b :: axes' => by
    have hrest : before <+: commonPrefix axes axes' ↔ before <+: axes ∧ before <+: axes' :=
      isPrefix_commonPrefix_iff
    rw [commonPrefix]
    split_ifs with hab
    · subst hab
      simp only [List.cons_prefix_cons, hrest]
      tauto
    · simp only [List.prefix_nil, List.cons_prefix_cons, reduceCtorEq, false_iff]
      rintro ⟨⟨rfl, -⟩, rfl, -⟩
      exact hab rfl

theorem mem_commonPrefix {axis : Nat} {axes axes' : List Nat} :
    axis ∈ commonPrefix axes axes' ↔
      ∃ before, before ++ [axis] <+: axes ∧ before ++ [axis] <+: axes' := by
  constructor
  · intro h
    obtain ⟨before, rest, hsplit⟩ := List.append_of_mem h
    exact ⟨before, isPrefix_commonPrefix_iff.mp ⟨rest, by simp [hsplit]⟩⟩
  · rintro ⟨before, h⟩
    exact (isPrefix_commonPrefix_iff.mpr h).subset (by simp)

theorem commonPrefix_self (axes : List Nat) : commonPrefix axes axes = axes := by
  induction axes with
  | nil => rfl
  | cons a axes ih => rw [commonPrefix, if_pos rfl, ih]

namespace Move

/-- Whether a move is a split. -/
def isSplit : Move → Bool
  | split _ _ => true
  | _ => false

/-- The moves along one axis, in their order. -/
def along (axis : Nat) (moves : List Move) : List Move := moves.filter fun move => move.axis == axis

theorem along_cons_of_ne {axis : Nat} {move : Move} (h : axis ≠ move.axis) (moves : List Move) :
    along axis (move :: moves) = along axis moves :=
  List.filter_cons_of_neg (by simpa using h.symm)

theorem along_cons_of_eq {axis : Nat} {move : Move} (h : axis = move.axis) (moves : List Move) :
    along axis (move :: moves) = move :: along axis moves :=
  List.filter_cons_of_pos (by simp [h])

end Move

namespace Route

variable {target l last : Layout} {move : Move} {axis dim dest : Nat}

/-! ### Splits come last -/

theorem Run.isSplit_of_settled {moves : List Move} (h : Run target l moves last)
    (hall : ∀ d, l.axes d <+: target.axes d) : ∀ move ∈ moves, move.isSplit := by
  induction h with
  | nil l => simp
  | cons hstep hrun ih =>
    refine List.forall_mem_cons.mpr ⟨?_, ih fun d => hstep.settled (hall d)⟩
    cases hstep with
    | gather hlast hdim => exact absurd (hall _) hdim
    | exchange hlast hdim hne hnext => exact absurd (hall _) hdim
    | split hall hnext => rfl

theorem Run.pairwise_isSplit {moves : List Move} (h : Run target l moves last) :
    moves.Pairwise fun move move' => move.isSplit → move'.isSplit := by
  induction h with
  | nil l => exact List.Pairwise.nil
  | cons hstep hrun ih =>
    refine List.pairwise_cons.mpr ⟨fun move' hmove' hsplit => ?_, ih⟩
    cases hstep with
    | gather hlast hdim => exact nomatch hsplit
    | exchange hlast hdim hne hnext => exact nomatch hsplit
    | split hall hnext =>
      exact hrun.isSplit_of_settled (fun d => (Step.split hall hnext).settled (hall d)) move' hmove'

/-! ### Kept axes -/

/-- **The axis stays where it is**: it lies in the longest common prefix of the axes that some dimension
has in `l` and in the target. -/
def Kept (target l : Layout) (axis : Nat) : Prop :=
  ∃ dim, axis ∈ commonPrefix (l.axes dim) (target.axes dim)

theorem kept_self (h : axis ∈ target.axes dest) : Kept target target axis :=
  ⟨dest, by rwa [commonPrefix_self]⟩

theorem kept_iff_of_mem (hl : l.usedAxes.Nodup) (hdim : axis ∈ l.axes dim) :
    Kept target l axis ↔ axis ∈ commonPrefix (l.axes dim) (target.axes dim) := by
  constructor
  · rintro ⟨d, hd⟩
    obtain ⟨before, hbefore, -⟩ := mem_commonPrefix.mp hd
    have hmem : axis ∈ l.axes d := hbefore.subset (by simp)
    rwa [← Layout.dim_eq_of_mem hl hmem hdim]
  · exact fun h => ⟨dim, h⟩

theorem append_singleton_isPrefix_iff {a b : Nat} {axes axes' : List Nat} (h : a ≠ b) :
    axes ++ [a] <+: axes' ++ [b] ↔ axes ++ [a] <+: axes' := by
  rw [List.prefix_concat_iff, or_iff_right]
  intro he
  simpa [h] using List.append_inj_right' he rfl

/-- The axis of a step is the next one that its taker shall have, so it is kept from then on. -/
theorem Step.kept_of_taker (h : Step target l move) (hl : l.usedAxes.Nodup)
    (hd : move.taker? = some dest) : Kept target (move.apply l) move.axis := by
  have hnext := h.next_of_taker hd
  refine ⟨dest, mem_commonPrefix.mpr ⟨l.axes dest, ?_, hnext⟩⟩
  rw [(h.relocates hl).of_taker h.giver_ne_taker hd]

theorem Step.kept_apply_iff (h : Step target l move) (hl : l.usedAxes.Nodup) (hne : axis ≠ move.axis) :
    Kept target (move.apply l) axis ↔ Kept target l axis := by
  have hrel := h.relocates hl
  have hdims := h.giver_ne_taker
  simp only [Kept, mem_commonPrefix]
  refine exists_congr fun d => exists_congr fun before => and_congr_left fun _ => ?_
  by_cases hg : move.giver? = some d
  · rw [hrel.of_giver hdims hg, append_singleton_isPrefix_iff hne]
  · by_cases hd : move.taker? = some d
    · rw [hrel.of_taker hdims hd, append_singleton_isPrefix_iff hne]
    · rw [hrel.of_other hg hd]

section Nodup

variable (ht : target.usedAxes.Nodup)
include ht

/-- **No step moves a kept axis.** -/
theorem Step.axis_ne_of_kept (h : Step target l move) (hl : l.usedAxes.Nodup)
    (hkept : Kept target l axis) : axis ≠ move.axis := by
  rintro rfl
  obtain ⟨d, hd⟩ := hkept
  obtain ⟨before, hbefore, htarget⟩ := mem_commonPrefix.mp hd
  have hmem : move.axis ∈ l.axes d := hbefore.subset (by simp)
  have hg : move.giver? = some d := (h.mem_axes_iff hl ht).mp hmem
  have hlast := (h.relocates hl).of_giver h.giver_ne_taker hg
  -- the axis is the innermost one of its dimension, which therefore is settled
  rw [hlast, List.prefix_concat_iff] at hbefore
  rcases hbefore with heq | hinner
  · refine h.not_settled_of_giver hg ?_
    rw [hlast, ← heq]
    exact htarget
  · exact (Layout.nodup_of_last hl hlast).1 (hinner.subset (by simp))

theorem Run.along_eq_nil_of_kept {moves : List Move} (h : Run target l moves last)
    (hl : l.usedAxes.Nodup) (hkept : Kept target l axis) : Move.along axis moves = [] := by
  induction h with
  | nil l => rfl
  | cons hstep hrun ih =>
    have hne := hstep.axis_ne_of_kept ht hl hkept
    rw [Move.along_cons_of_ne hne]
    exact ih (hstep.nodup_usedAxes hl ht) ((hstep.kept_apply_iff hl hne).mpr hkept)

/-! ### Axes that are not kept -/

theorem Step.giver?_eq_none (h : Step target l move) (hl : l.usedAxes.Nodup)
    (hnot : move.axis ∉ l.usedAxes) : move.giver? = none := by
  refine Option.eq_none_iff_forall_ne_some.mpr fun d hd => hnot ?_
  exact Layout.mem_usedAxes.mpr ⟨d, (h.mem_axes_iff hl ht).mpr hd⟩

theorem Step.not_mem_usedAxes_apply (h : Step target l move) (hl : l.usedAxes.Nodup)
    (hd : move.taker? = none) : move.axis ∉ (move.apply l).usedAxes := by
  intro hmem
  obtain ⟨d, hmem⟩ := Layout.mem_usedAxes.mp hmem
  rw [h.mem_axes_apply_iff hl ht, hd] at hmem
  exact nomatch hmem

theorem Step.taker?_eq (h : Step target l move) {d : Nat} (hd : move.taker? = some d)
    (hdest : move.axis ∈ target.axes dest) : d = dest :=
  Layout.dim_eq_of_mem ht (h.mem_of_taker hd) hdest

theorem Run.along_eq_nil_of_unused {moves : List Move} (h : Run target l moves last)
    (hl : l.usedAxes.Nodup) (hnot : axis ∉ l.usedAxes) (hnot' : axis ∉ target.usedAxes) :
    Move.along axis moves = [] := by
  induction h with
  | nil l => rfl
  | @cons l last move moves hstep hrun ih =>
    have hne : axis ≠ move.axis := by
      rintro rfl
      have hg := hstep.giver?_eq_none ht hl hnot
      cases hd : move.taker? with
      | none => exact hstep.giver_ne_taker (hg.trans hd.symm)
      | some d => exact hnot' (Layout.mem_usedAxes.mpr ⟨d, hstep.mem_of_taker hd⟩)
    rw [Move.along_cons_of_ne hne]
    exact ih (hstep.nodup_usedAxes hl ht) (by rwa [(hstep.relocates hl).mem_usedAxes_of_ne hne])

theorem Run.along_eq_of_unused (hdest : axis ∈ target.axes dest) :
    ∀ {moves : List Move} {l : Layout}, Run target l moves target → l.usedAxes.Nodup →
      axis ∉ l.usedAxes → Move.along axis moves = [.split axis dest]
  | [], l, h, _, hnot => by
    cases h
    exact absurd (Layout.mem_usedAxes.mpr ⟨dest, hdest⟩) hnot
  | move :: moves, l, h, hl, hnot => by
    cases h with
    | cons hstep hrun =>
      have hnext := hstep.nodup_usedAxes hl ht
      by_cases ha : axis = move.axis
      · subst ha
        have hg := hstep.giver?_eq_none ht hl hnot
        obtain ⟨d, hd⟩ := Option.ne_none_iff_exists'.mp fun hd => hstep.giver_ne_taker (hg.trans hd.symm)
        obtain rfl := hstep.taker?_eq ht hd hdest
        rw [Move.along_cons_of_eq rfl, hrun.along_eq_nil_of_kept ht hnext (hstep.kept_of_taker hl hd)]
        exact congrArg (fun move => [move]) (Move.eq_split hg hd)
      · rw [Move.along_cons_of_ne ha]
        exact along_eq_of_unused hdest hrun hnext (by rwa [(hstep.relocates hl).mem_usedAxes_of_ne ha])

theorem Run.along_eq_of_dropped (hnot : axis ∉ target.usedAxes) :
    ∀ {moves : List Move} {l : Layout}, Run target l moves target → l.usedAxes.Nodup →
      axis ∈ l.axes dim → Move.along axis moves = [.gather axis dim]
  | [], l, h, _, hmem => by
    cases h
    exact absurd (Layout.mem_usedAxes.mpr ⟨dim, hmem⟩) hnot
  | move :: moves, l, h, hl, hmem => by
    cases h with
    | cons hstep hrun =>
      have hnext := hstep.nodup_usedAxes hl ht
      by_cases ha : axis = move.axis
      · subst ha
        have hg := (hstep.mem_axes_iff hl ht).mp hmem
        have hd : move.taker? = none := by
          refine Option.eq_none_iff_forall_ne_some.mpr fun d hd => hnot ?_
          exact Layout.mem_usedAxes.mpr ⟨d, hstep.mem_of_taker hd⟩
        have hgone := hstep.not_mem_usedAxes_apply ht hl hd
        rw [Move.along_cons_of_eq rfl, hrun.along_eq_nil_of_unused ht hnext hgone hnot]
        exact congrArg (fun move => [move]) (Move.eq_gather hg hd)
      · rw [Move.along_cons_of_ne ha]
        exact along_eq_of_dropped hnot hrun hnext (((hstep.relocates hl).mem_axes_of_ne ha).mpr hmem)

/-- **An axis that both layouts use** but that is not kept is exchanged once, or gathered and later
split. -/
theorem Run.along_eq_of_moved (hdest : axis ∈ target.axes dest) :
    ∀ {moves : List Move} {l : Layout}, Run target l moves target → l.usedAxes.Nodup →
      axis ∈ l.axes dim → ¬ Kept target l axis →
        Move.along axis moves = [.exchange axis dim dest] ∨
          Move.along axis moves = [.gather axis dim, .split axis dest]
  | [], l, h, _, _, hkept => by
    cases h
    exact absurd (kept_self hdest) hkept
  | move :: moves, l, h, hl, hmem, hkept => by
    cases h with
    | cons hstep hrun =>
      have hnext := hstep.nodup_usedAxes hl ht
      by_cases ha : axis = move.axis
      · subst ha
        have hg := (hstep.mem_axes_iff hl ht).mp hmem
        rw [Move.along_cons_of_eq rfl]
        cases hd : move.taker? with
        | none =>
          have hgone := hstep.not_mem_usedAxes_apply ht hl hd
          right
          rw [hrun.along_eq_of_unused ht hdest hnext hgone]
          exact congrArg (fun first => [first, _]) (Move.eq_gather hg hd)
        | some d =>
          obtain rfl := hstep.taker?_eq ht hd hdest
          left
          rw [hrun.along_eq_nil_of_kept ht hnext (hstep.kept_of_taker hl hd)]
          exact congrArg (fun move => [move]) (Move.eq_exchange hg hd)
      · rw [Move.along_cons_of_ne ha]
        refine along_eq_of_moved hdest hrun hnext (((hstep.relocates hl).mem_axes_of_ne ha).mpr hmem) ?_
        rwa [hstep.kept_apply_iff hl ha]

end Nodup

/-! ### Whole routes -/

/-- **A route moves no axis that it does not have to.** When no axis is used twice in either layout, splits
come last, and the moves along an axis are: none, if neither layout uses it or it is kept; one gather, if
only the source uses it; one split, if only the target uses it; and otherwise one exchange, or a gather
and later a split. -/
theorem moves_along_each_axis {K : Type} [Scalar K] (mesh : Mesh K) (t : TensorType)
    {source target : Layout} (hs : source.usedAxes.Nodup) (ht : target.usedAxes.Nodup) :
    (∀ tr, Transition.between mesh t source target = .ok tr → tr.moves = moves source target) ∧
      ((moves source target).Pairwise fun move move' => move.isSplit → move'.isSplit) ∧
        ∀ axis,
          (axis ∉ source.usedAxes → axis ∉ target.usedAxes →
            Move.along axis (moves source target) = []) ∧
          (Kept target source axis → Move.along axis (moves source target) = []) ∧
          (∀ dim, axis ∈ source.axes dim → axis ∉ target.usedAxes →
            Move.along axis (moves source target) = [.gather axis dim]) ∧
          (∀ dest, axis ∉ source.usedAxes → axis ∈ target.axes dest →
            Move.along axis (moves source target) = [.split axis dest]) ∧
          (∀ dim dest, axis ∈ source.axes dim → axis ∈ target.axes dest → ¬ Kept target source axis →
            Move.along axis (moves source target) = [.exchange axis dim dest] ∨
              Move.along axis (moves source target) = [.gather axis dim, .split axis dest]) := by
  have hrun := moves_run source target
  refine ⟨fun tr htr => moves_of_between htr, hrun.pairwise_isSplit, fun axis => ⟨?_, ?_, ?_, ?_, ?_⟩⟩
  · exact fun hnot hnot' => hrun.along_eq_nil_of_unused ht hs hnot hnot'
  · exact fun hkept => hrun.along_eq_nil_of_kept ht hs hkept
  · exact fun dim hdim hnot => hrun.along_eq_of_dropped ht hnot hs hdim
  · exact fun dest hnot hdest => hrun.along_eq_of_unused ht hdest hs hnot
  · exact fun dim dest hdim hdest hkept => hrun.along_eq_of_moved ht hdest hs hdim hkept

/-- The layout that splits dimension 0 along axes 0 and 1 and dimension 2 along axis 3. -/
def outset : Layout := .ofPairs [(0, [0, 1]), (2, [3])]

/-- The layout that splits dimension 0 along axis 0 and dimension 1 along axes 1 and 4. -/
def arrival : Layout := .ofPairs [(0, [0]), (1, [1, 4])]

/-- On the way from `outset` to `arrival`, axis 0 is kept and axis 5 is not used. -/
theorem moves_along_each_axis_of_outset :
    outset.usedAxes.Nodup ∧ arrival.usedAxes.Nodup ∧
      Move.along 0 (moves outset arrival) = [] ∧ Move.along 5 (moves outset arrival) = [] ∧
        Move.along 3 (moves outset arrival) = [.gather 3 2] ∧
          Move.along 4 (moves outset arrival) = [.split 4 1] ∧
            (Move.along 1 (moves outset arrival) = [.exchange 1 0 1] ∨
              Move.along 1 (moves outset arrival) = [.gather 1 0, .split 1 1]) := by
  have hs : outset.usedAxes.Nodup := by decide
  have ht : arrival.usedAxes.Nodup := by decide
  have hkept : Kept arrival outset 0 := ⟨0, by decide⟩
  have hmoved : ¬ Kept arrival outset 1 := by
    have hdim : 1 ∈ outset.axes 0 := by decide
    rw [kept_iff_of_mem hs hdim]
    decide
  obtain ⟨-, -, halong⟩ := moves_along_each_axis Mesh.square ⟨[8, 4], .f32⟩ hs ht
  exact ⟨hs, ht, (halong 0).2.1 hkept, (halong 5).1 (by decide) (by decide),
    (halong 3).2.2.1 2 (by decide) (by decide), (halong 4).2.2.2.1 1 (by decide) (by decide),
    (halong 1).2.2.2.2 0 1 (by decide) (by decide) hmoved⟩

end Route

end ShardPlan
