import ShardPlan.Proofs.Reshard.Pricing

/-! # What the gradient does on a route

The gradient makes the inverse moves of a route in reverse order. They lead from the target back to the
source (`Run.applyAll_inverse`), and each has the price of its move with both passes exchanged: a gather
and a split are priced with the bytes of the same layout, and an exchange leaves the number of shards as
it is (`Step.movePrice_inverse`). -/

namespace ShardPlan

theorem Move.applyAll_append (moves moves' : List Move) (l : Layout) :
    Move.applyAll (moves ++ moves') l = Move.applyAll moves' (Move.applyAll moves l) :=
  List.foldl_append

/-- The inverse move has the same price from the bytes after to the bytes before, with both passes
exchanged, if those of an exchange are the same. -/
theorem Transition.bytesPrice_inverse {K : Type} [Scalar K] {mesh : Mesh K} {before after : K}
    {move : Move} (h : move.giver?.isSome → move.taker?.isSome → after = before) :
    bytesPrice mesh after before move.inverse = (bytesPrice mesh before after move).swap := by
  cases move with
  | gather axis dim => rfl
  | exchange axis dim dest =>
    have hsame : after = before := h rfl rfl
    rw [hsame]
    rfl
  | split axis dim => rfl

namespace Route

variable {target l : Layout} {move : Move}

/-! ### The way back -/

/-- **The inverse moves in reverse order lead back** from the end of a run to its start. -/
theorem Run.applyAll_inverse {last : Layout} {moves : List Move} (h : Run target l moves last)
    (ht : target.usedAxes.Nodup) (hl : l.usedAxes.Nodup) :
    Move.applyAll (moves.reverse.map Move.inverse) last = l := by
  induction h with
  | nil l => rfl
  | @cons l last move moves hstep hrun ih =>
    have hnext : Move.applyAll (moves.reverse.map Move.inverse) last = move.apply l :=
      ih (hstep.nodup_usedAxes hl ht)
    rw [List.reverse_cons, List.map_append, Move.applyAll_append, hnext]
    exact hstep.inverse_apply hl ht

/-! ### Prices on the way back -/

variable {K : Type} [Scalar K] {mesh : Mesh K} {t : TensorType} {bytes : Nat}

theorem Step.movePrice_inverse (h : Step target l move) (hbytes : t.byteSize = .ok bytes)
    (ht : target.usedAxes.Nodup) (hl : l.Fits t mesh) (hnext : (move.apply l).Fits t mesh) :
    ∃ price, Transition.movePrice mesh t move l (move.apply l) = .ok price ∧
      Transition.movePrice mesh t move.inverse (move.apply l) l = .ok price.swap := by
  refine ⟨_, Transition.movePrice_eq_ok hbytes hl hnext move, ?_⟩
  rw [Transition.movePrice_eq_ok hbytes hnext hl, Transition.bytesPrice_inverse]
  intro hgiver htaker
  obtain ⟨dim, hdim⟩ := Option.isSome_iff_exists.mp hgiver
  obtain ⟨dest, hdest⟩ := Option.isSome_iff_exists.mp htaker
  exact Layout.heldBytes_perm (h.usedAxes_perm hl.nodup ht hdim hdest) mesh bytes

/-- **The gradient of a transition.** Between layouts that fit a tensor of known size, the inverse of every
move of the transition leads from the layout after it to the one before, for the same prices with both
passes exchanged, so all of them in reverse order lead from the target to the source. -/
theorem inverse_moves_lead_back (mesh : Mesh K) (t : TensorType) {source target : Layout} {bytes : Nat}
    (hbytes : t.byteSize = .ok bytes) (hs : source.violation? t mesh = .ok none)
    (ht : target.violation? t mesh = .ok none) :
    (∀ tr, Transition.between mesh t source target = .ok tr → tr.moves = moves source target) ∧
      (t.rank < wordLimit → ∃ tr, Transition.between mesh t source target = .ok tr) ∧
        (∀ done move rest, moves source target = done ++ move :: rest →
          let current := Move.applyAll done source
          let next := move.apply current
          move.inverse.apply next = current ∧
            ∃ forward backward,
              Transition.movePrice mesh t move current next = .ok (forward, backward) ∧
                Transition.movePrice mesh t move.inverse next current = .ok (backward, forward)) ∧
          Move.applyAll ((moves source target).reverse.map Move.inverse) target = source := by
  rw [Layout.violation?_eq_none_iff] at hs ht
  have hrun := moves_run source target
  refine ⟨fun tr htr => moves_of_between htr, fun hrank => ?_, fun done move rest hmoves => ?_,
    hrun.applyAll_inverse ht.nodup hs.nodup⟩
  · obtain ⟨cost, hcost⟩ := between_eq_ok hrank hbytes hs ht
    exact ⟨_, hcost⟩
  · intro current next
    have hcurrent : OnRoute source target current := onRoute_applyAll hs.nodup ht.nodup hmoves
    rw [hmoves] at hrun
    cases hrun.of_append.2 with
    | cons hstep hrest =>
      have hnext : OnRoute source target next := hstep.onRoute ht.nodup hcurrent
      obtain ⟨price, hprice, hback⟩ :=
        hstep.movePrice_inverse hbytes ht.nodup (hcurrent.fits hs ht) (hnext.fits hs ht)
      exact ⟨hstep.inverse_apply hcurrent.nodup ht.nodup, price.1, price.2, hprice, hback⟩

/-- The gradient between two layouts that split a dimension each along both axes of a mesh. -/
theorem inverse_moves_lead_back_of_stacked :
    TensorType.byteSize ⟨[8, 4], .f32⟩ = .ok 128 ∧
      Layout.stacked.violation? ⟨[8, 4], .f32⟩ .square = .ok none ∧
        (Layout.stacked.transposed 0 1).violation? ⟨[8, 4], .f32⟩ .square = .ok none ∧
          (∃ tr, Transition.between .square ⟨[8, 4], .f32⟩ .stacked (Layout.stacked.transposed 0 1) =
              .ok tr ∧ tr.moves = moves .stacked (Layout.stacked.transposed 0 1)) ∧
            (∀ done move rest,
              moves .stacked (Layout.stacked.transposed 0 1) = done ++ move :: rest →
                move.inverse.apply (move.apply (Move.applyAll done .stacked)) =
                  Move.applyAll done .stacked) ∧
              Move.applyAll ((moves .stacked (Layout.stacked.transposed 0 1)).reverse.map Move.inverse)
                (Layout.stacked.transposed 0 1) = .stacked := by
  have hbytes : TensorType.byteSize ⟨[8, 4], .f32⟩ = .ok 128 := rfl
  have hs : Layout.stacked.violation? ⟨[8, 4], .f32⟩ Mesh.square = .ok none := rfl
  have ht : (Layout.stacked.transposed 0 1).violation? ⟨[8, 4], .f32⟩ Mesh.square = .ok none := rfl
  obtain ⟨hmoves, hcomputed, hsteps, hback⟩ := inverse_moves_lead_back _ _ hbytes hs ht
  obtain ⟨tr, htr⟩ := hcomputed (by decide)
  exact ⟨hbytes, hs, ht, ⟨tr, htr, hmoves tr htr⟩,
    fun done move rest hsplit => (hsteps done move rest hsplit).1, hback⟩

end Route

end ShardPlan
