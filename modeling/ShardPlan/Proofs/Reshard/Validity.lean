import ShardPlan.Proofs.Layout.Fit
import ShardPlan.Proofs.Reshard.Reach
import ShardPlan.Proofs.Reshard.Relocation
import ShardPlan.Reshard.Transition

/-! # Layouts met on a route

Every layout on a route uses an axis at most once, and each of its dimensions has a prefix of the axes
that it has in the source or in the target (`OnRoute`). A prefix cuts a dimension evenly where the whole
does, so between layouts that fit a tensor only layouts that fit are met (`OnRoute.fits`). -/

namespace ShardPlan

theorem Layout.CutsEvenly.of_isPrefix {K : Type} {t : TensorType} {mesh : Mesh K} {dim : Nat}
    {axes axes' : List Nat} (h : CutsEvenly t mesh dim axes') (hp : axes <+: axes') :
    CutsEvenly t mesh dim axes := by
  obtain ⟨size, hsize, hpos, hdvd⟩ := h
  exact ⟨size, hsize, hpos, (Mesh.shardVolume_dvd_of_isPrefix hp).trans hdvd⟩

namespace Route

/-- **What holds of the layouts on a route.** -/
structure OnRoute (source target l : Layout) : Prop where
  nodup : l.usedAxes.Nodup
  source_or_target : ∀ d, l.axes d <+: source.axes d ∨ l.axes d <+: target.axes d

variable {source target l : Layout} {move : Move}

theorem OnRoute.start (hs : source.usedAxes.Nodup) : OnRoute source target source :=
  ⟨hs, fun _ => .inl (List.prefix_refl _)⟩

theorem Step.onRoute (h : Step target l move) (ht : target.usedAxes.Nodup)
    (hl : OnRoute source target l) : OnRoute source target (move.apply l) := by
  have hrel := h.relocates hl.nodup
  have hne := h.giver_ne_taker
  refine ⟨h.nodup_usedAxes hl.nodup ht, fun d => ?_⟩
  by_cases hg : move.giver? = some d
  · have hshorter : (move.apply l).axes d <+: l.axes d := ⟨_, (hrel.of_giver hne hg).symm⟩
    exact (hl.source_or_target d).imp hshorter.trans hshorter.trans
  · by_cases hd : move.taker? = some d
    · right
      rw [hrel.of_taker hne hd]
      exact h.next_of_taker hd
    · rw [hrel.of_other hg hd]
      exact hl.source_or_target d

theorem onRoute_applyAll {done rest : List Move} (hs : source.usedAxes.Nodup)
    (ht : target.usedAxes.Nodup) (h : moves source target = done ++ rest) :
    OnRoute source target (Move.applyAll done source) := by
  have hrun := moves_run source target
  rw [h] at hrun
  exact hrun.of_append.1.invariant (P := OnRoute source target) (fun hstep hl => hstep.onRoute ht hl)
    (.start hs)

/-! ### Fitting layouts -/

variable {K : Type} {t : TensorType} {mesh : Mesh K}

theorem OnRoute.fits (h : OnRoute source target l) (hs : source.Fits t mesh)
    (ht : target.Fits t mesh) : l.Fits t mesh := by
  refine ⟨fun {d} hd => ?_, fun axis haxis => ?_, h.nodup⟩
  · rcases h.source_or_target d with hp | hp
    · exact (hs.cuts (hp.ne_nil hd)).of_isPrefix hp
    · exact (ht.cuts (hp.ne_nil hd)).of_isPrefix hp
  · obtain ⟨d, hd⟩ := Layout.mem_usedAxes.mp haxis
    rcases h.source_or_target d with hp | hp
    · exact hs.axis_lt axis (Layout.mem_usedAxes.mpr ⟨d, hp.subset hd⟩)
    · exact ht.axis_lt axis (Layout.mem_usedAxes.mpr ⟨d, hp.subset hd⟩)

theorem moves_of_between [Scalar K] {tr : Transition K}
    (h : Transition.between mesh t source target = .ok tr) : tr.moves = moves source target := by
  unfold Transition.between at h
  split_ifs at h with heq
  · cases h
    rw [heq, moves_self]
    rfl
  · simp only [bind, Except.bind] at h
    split at h
    · exact nomatch h
    · split at h
      · exact nomatch h
      · cases h; rfl

/-- **A transition between layouts that fit meets only layouts that fit** on its way to the target, after
each of its moves. -/
theorem violation?_applyAll_eq_none [Scalar K] (mesh : Mesh K) (t : TensorType) {source target : Layout}
    (hs : source.violation? t mesh = .ok none) (ht : target.violation? t mesh = .ok none) :
    (∀ tr, Transition.between mesh t source target = .ok tr → tr.moves = moves source target) ∧
      Move.applyAll (moves source target) source = target ∧
        ∀ done, done <+: moves source target →
          (Move.applyAll done source).violation? t mesh = .ok none := by
  rw [Layout.violation?_eq_none_iff] at hs ht
  refine ⟨fun tr htr => moves_of_between htr, (moves_run source target).applyAll_eq, ?_⟩
  rintro done ⟨rest, hdone⟩
  have hroute := onRoute_applyAll hs.nodup ht.nodup hdone.symm
  exact Layout.violation?_eq_none_iff.mpr (hroute.fits hs ht)

end Route

/-- The layout whose first dimension is split along the first two axes. -/
def Layout.stacked : Layout := .ofPairs [(0, [0, 1])]

/-- Four devices along two axes of two. -/
def Mesh.square : Mesh where
  devices := [0, 1, 2, 3]
  axes := [⟨"x", 2, .standard⟩, ⟨"y", 2, .standard⟩]
  size_pos := by simp
  names_nodup := by simp
  length_devices := rfl
  length_devices_lt := by decide

namespace Route

/-- The way between two layouts that split a dimension each along both axes of a mesh. -/
theorem violation?_applyAll_eq_none_of_stacked :
    Layout.stacked.violation? ⟨[8, 4], .f32⟩ .square = .ok none ∧
      (Layout.stacked.transposed 0 1).violation? ⟨[8, 4], .f32⟩ .square = .ok none ∧
        (∀ tr, Transition.between .square ⟨[8, 4], .f32⟩ .stacked (Layout.stacked.transposed 0 1) =
            .ok tr → tr.moves = moves .stacked (Layout.stacked.transposed 0 1)) ∧
          Move.applyAll (moves .stacked (Layout.stacked.transposed 0 1)) .stacked =
              Layout.stacked.transposed 0 1 ∧
            ∀ done, done <+: moves .stacked (Layout.stacked.transposed 0 1) →
              (Move.applyAll done .stacked).violation? ⟨[8, 4], .f32⟩ .square = .ok none :=
  ⟨rfl, rfl, violation?_applyAll_eq_none .square ⟨[8, 4], .f32⟩ rfl rfl⟩

end Route

end ShardPlan
