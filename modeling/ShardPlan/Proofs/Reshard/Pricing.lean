import ShardPlan.Proofs.Layout.Shards
import ShardPlan.Proofs.Reshard.Validity

/-! # Transitions are priced

Between layouts that fit a tensor whose size in bytes is known, every move has a price, which depends on
the layouts through the bytes that a device holds before and after (`movePrice_eq_ok`). So the price of
every route and the transition itself are computed without a fault (`between_eq_ok`). -/

namespace ShardPlan

variable {K : Type} [Scalar K]

namespace Transition

/-- The prices of a move in both passes when a device holds `before` bytes, and then `after`. -/
def bytesPrice (mesh : Mesh K) (before after : K) : Move → K × K
  | .gather axis _ => (mesh.collectivePrice .allGather after axis, mesh.splitPrice axis)
  | .exchange axis _ _ =>
    (mesh.collectivePrice .allToAll before axis, mesh.collectivePrice .allToAll before axis)
  | .split axis _ => (mesh.splitPrice axis, mesh.collectivePrice .allGather before axis)

variable {mesh : Mesh K} {t : TensorType} {bytes : Nat} {before after : Layout}

theorem movePrice_eq_ok (hbytes : t.byteSize = .ok bytes) (hbefore : before.Fits t mesh)
    (hafter : after.Fits t mesh) (move : Move) :
    movePrice mesh t move before after =
      .ok (bytesPrice mesh (before.heldBytes mesh bytes) (after.heldBytes mesh bytes) move) := by
  cases move with
  | gather axis dim => rw [movePrice, hafter.within.localBytes_eq_ok hbytes]; rfl
  | exchange axis dim dest => rw [movePrice, hbefore.within.localBytes_eq_ok hbytes]; rfl
  | split axis dim => rw [movePrice, hbefore.within.localBytes_eq_ok hbytes]; rfl

end Transition

namespace Route

variable {mesh : Mesh K} {t : TensorType} {bytes : Nat} {source target : Layout}

/-- **The price of a run is computed** when it starts with a layout met on the route. -/
theorem Run.routePrice_eq_ok {l last : Layout} {moves : List Move} (h : Run target l moves last)
    (hbytes : t.byteSize = .ok bytes) (hs : source.Fits t mesh) (ht : target.Fits t mesh)
    (hl : OnRoute source target l) :
    ∀ forward backward : K,
      ∃ cost, Transition.routePrice mesh t l forward backward moves = .ok cost := by
  induction h with
  | nil l => exact fun forward backward => ⟨_, rfl⟩
  | @cons l last move moves hstep hrun ih =>
    intro forward backward
    have hnext := hstep.onRoute ht.nodup hl
    rw [Transition.routePrice, Transition.movePrice_eq_ok hbytes (hl.fits hs ht) (hnext.fits hs ht)]
    exact ih hnext _ _

theorem between_eq_ok (hrank : t.rank < wordLimit) (hbytes : t.byteSize = .ok bytes)
    (hs : source.Fits t mesh) (ht : target.Fits t mesh) :
    ∃ cost, Transition.between mesh t source target = .ok ⟨cost, moves source target⟩ := by
  by_cases heq : source = target
  · subst heq
    exact ⟨.zero, by rw [moves_self, Transition.between, if_pos rfl]; rfl⟩
  · have hdims : ∀ e ∈ source.partitions ++ target.partitions, e.1 + 1 < wordLimit := by
      intro e he
      have hdim : e.1 < t.rank := (List.mem_append.mp he).elim hs.dim_lt ht.dim_lt
      omega
    obtain ⟨n, hspan, -⟩ := span_eq_ok t.rank hdims
    have hrun := moves_run source target
    obtain ⟨cost, hcost⟩ := hrun.routePrice_eq_ok hbytes hs ht (.start hs.nodup) 0.0 0.0
    refine ⟨cost, ?_⟩
    simp only [Transition.between, if_neg heq, hspan, hcost, bind, Except.bind, pure, Except.pure]

end Route

end ShardPlan
