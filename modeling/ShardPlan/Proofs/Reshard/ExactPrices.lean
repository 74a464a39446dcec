import ShardPlan.Proofs.Mesh.ExactPrices
import ShardPlan.Proofs.Reshard.Pricing

/-! # Prices of transitions in exact arithmetic

In exact arithmetic a move costs nothing along an axis of one device, and something in both passes along a longer
one, so the moves of a route are free exactly if all of them are along axes of one device (`Run.exists_pays`). Such
moves do not change in which order the longer axes split a dimension (`Run.longAxes_eq`). A transition between
layouts that differ in this order therefore has a positive price, which is how far apart they are
(`exact_price_tells_apart`). -/

namespace ShardPlan

/-- The axes that split a dimension, without those of one device. -/
def Layout.longAxes {K : Type} (l : Layout) (mesh : Mesh K) (dim : Nat) : List Nat :=
  (l.axes dim).filter fun axis => mesh.axisSize? axis != some 1

/-- An axis of one device that goes from one dimension to another leaves the longer axes where they are. -/
theorem Move.Relocates.longAxes_eq {K : Type} {mesh : Mesh K} {move : Move} {l next : Layout}
    (h : move.Relocates l next) (hsize : mesh.axisSize? move.axis = some 1) (dim : Nat) :
    next.longAxes mesh dim = l.longAxes mesh dim := by
  have hextra : ∀ dim?, (move.extra dim? dim).filter (fun axis => mesh.axisSize? axis != some 1) = [] := by
    intro dim?
    unfold Move.extra
    split_ifs
    · simp [hsize]
    · rfl
  have hdim := congrArg (List.filter fun axis => mesh.axisSize? axis != some 1) (h dim)
  rw [List.filter_append, List.filter_append, hextra, hextra, List.append_nil, List.append_nil] at hdim
  exact hdim.symm

theorem Mesh.sizeAlong_eq_one_iff {K : Type} {mesh : Mesh K} {axis : Nat} (h : axis < mesh.rank) :
    mesh.sizeAlong axis = 1 ↔ mesh.axisSize? axis = some 1 := by
  rw [sizeAlong]
  cases hsize : mesh.axisSize? axis with
  | none =>
    have hle : mesh.rank ≤ axis := axisSize?_isNone.mp (by rw [hsize]; rfl)
    omega
  | some size => simp

theorem Layout.heldBytes_nonneg (l : Layout) (mesh : Mesh ℚ) (bytes : Nat) :
    (0 : ℚ) ≤ l.heldBytes mesh bytes :=
  div_nonneg (Nat.cast_nonneg bytes) (Nat.cast_nonneg _)

namespace Transition

variable {mesh : Mesh ℚ}

/-! ### What moves cost -/

/-- **What moves cost in both passes**: neither is negative, and there is a cost unless all moves are along axes of
one device. -/
structure Pays (mesh : Mesh ℚ) (moves : List Move) (forward backward : ℚ) : Prop where
  forward_nonneg : 0 ≤ forward
  backward_nonneg : 0 ≤ backward
  eq_zero_iff : forward + backward = 0 ↔ ∀ move ∈ moves, mesh.sizeAlong move.axis = 1

theorem Pays.nil : Pays mesh [] 0 0 := ⟨le_rfl, le_rfl, by simp⟩

theorem Pays.append {moves moves' : List Move} {f b f' b' : ℚ} (h : Pays mesh moves f b)
    (h' : Pays mesh moves' f' b') : Pays mesh (moves ++ moves') (f + f') (b + b') := by
  obtain ⟨hf, hb, hzero⟩ := h
  obtain ⟨hf', hb', hzero'⟩ := h'
  refine ⟨add_nonneg hf hf', add_nonneg hb hb', ?_⟩
  rw [List.forall_mem_append, ← hzero, ← hzero', add_add_add_comm,
    add_eq_zero_iff_of_nonneg (add_nonneg hf hb) (add_nonneg hf' hb')]

theorem bytesPrice_pays (hmesh : mesh.IsNonneg) {before after : ℚ} (hbefore : 0 ≤ before)
    (hafter : 0 ≤ after) (move : Move) :
    Pays mesh [move] (bytesPrice mesh before after move).1 (bytesPrice mesh before after move).2 := by
  rcases Nat.eq_or_lt_of_le (Nat.succ_le_of_lt (mesh.sizeAlong_pos move.axis)) with hsize | hsize
  · have hsize : mesh.sizeAlong move.axis = 1 := hsize.symm
    have hprice : bytesPrice mesh before after move = (0, 0) := by
      cases move with
      | gather axis dim =>
        exact Prod.ext (Mesh.collectivePrice_of_single hsize _ _) (Mesh.splitPrice_of_single hsize)
      | exchange axis dim dest =>
        exact Prod.ext (Mesh.collectivePrice_of_single hsize _ _) (Mesh.collectivePrice_of_single hsize _ _)
      | split axis dim =>
        exact Prod.ext (Mesh.splitPrice_of_single hsize) (Mesh.collectivePrice_of_single hsize _ _)
    rw [hprice]
    exact ⟨le_rfl, le_rfl, by simp [hsize]⟩
  · have hprice : 0 < (bytesPrice mesh before after move).1 ∧ 0 < (bytesPrice mesh before after move).2 := by
      cases move with
      | gather axis dim =>
        exact ⟨Mesh.collectivePrice_pos hsize hmesh _ hafter, Mesh.splitPrice_pos hsize⟩
      | exchange axis dim dest =>
        exact ⟨Mesh.collectivePrice_pos hsize hmesh _ hbefore, Mesh.collectivePrice_pos hsize hmesh _ hbefore⟩
      | split axis dim =>
        exact ⟨Mesh.splitPrice_pos hsize, Mesh.collectivePrice_pos hsize hmesh _ hbefore⟩
    refine ⟨hprice.1.le, hprice.2.le, ?_⟩
    rw [List.forall_mem_singleton]
    exact iff_of_false (add_pos hprice.1 hprice.2).ne' hsize.ne'

theorem byteSize_hasValue_of_movePrice {K : Type} [Scalar K] {mesh : Mesh K} {t : TensorType} {move : Move}
    {before after : Layout} {price : K × K} (h : movePrice mesh t move before after = .ok price) :
    HasValue t.byteSize := by
  obtain ⟨l, held, hheld⟩ : ∃ l held, Layout.localBytes (K := K) l t mesh = .ok held := by
    -- every move begins by counting what some layout holds
    cases move with
    | gather | exchange | split =>
      obtain ⟨held, hheld, -⟩ := bind_eq_ok_iff.mp h
      exact ⟨_, held, hheld⟩
  obtain ⟨bytes, hbytes, -⟩ := bind_eq_ok_iff.mp hheld
  exact ⟨bytes, hbytes⟩

end Transition

namespace Route

open Transition (Pays)

variable {mesh : Mesh ℚ} {t : TensorType} {source target l last : Layout} {moves : List Move} {move : Move}

/-! ### What a route costs -/

/-- **The price of a run** is what its moves cost, on top of what was paid before. -/
theorem Run.exists_pays (h : Run target l moves last) (hmesh : mesh.IsNonneg) (hs : source.Fits t mesh)
    (ht : target.Fits t mesh) (hl : OnRoute source target l) : ∀ {f b : ℚ} {cost : StepCost ℚ},
      Transition.routePrice mesh t l f b moves = .ok cost →
        ∃ f' b', Pays mesh moves f' b' ∧ cost = .ofPasses (f + f') (b + b') := by
  induction h with
  | nil l =>
    rintro f b _ ⟨⟩
    exact ⟨0, 0, .nil, by rw [add_zero, add_zero]⟩
  | @cons l last move moves hstep hrun ih =>
    intro f b cost hcost
    have hnext := hstep.onRoute ht.nodup hl
    obtain ⟨⟨f₁, b₁⟩, hprice, hcost⟩ := bind_eq_ok_iff.mp hcost
    obtain ⟨bytes, hbytes⟩ := Transition.byteSize_hasValue_of_movePrice hprice
    rw [Transition.movePrice_eq_ok hbytes (hl.fits hs ht) (hnext.fits hs ht)] at hprice
    have hfirst : Pays mesh [move] f₁ b₁ := by
      have hpays := Transition.bytesPrice_pays hmesh (l.heldBytes_nonneg mesh bytes)
        ((move.apply l).heldBytes_nonneg mesh bytes) move
      rwa [Except.ok.inj hprice] at hpays
    obtain ⟨f', b', hpays, rfl⟩ := ih hnext hcost
    exact ⟨_, _, hfirst.append hpays, by rw [add_assoc, add_assoc]⟩

/-- **The price of a transition** is what its moves cost. -/
theorem pays_of_between (hmesh : mesh.IsNonneg) (hs : source.Fits t mesh) (ht : target.Fits t mesh)
    {tr : Transition ℚ} (h : Transition.between mesh t source target = .ok tr) :
    Pays mesh tr.moves tr.cost.forward tr.cost.backward ∧
      tr.cost.total = tr.cost.forward + tr.cost.backward := by
  have hzero : (0.0 : ℚ) = 0 := by norm_num
  unfold Transition.between at h
  split_ifs at h with heq
  · cases h
    change Pays mesh [] (0.0 : ℚ) (0.0 : ℚ) ∧ (0.0 : ℚ) = 0.0 + 0.0
    rw [hzero]
    exact ⟨.nil, (add_zero 0).symm⟩
  · obtain ⟨_, -, h⟩ := bind_eq_ok_iff.mp h
    obtain ⟨cost, hcost, h⟩ := bind_pure_eq_ok_iff.mp h
    subst h
    obtain ⟨f, b, hpays, rfl⟩ := (moves_run source target).exists_pays hmesh hs ht (.start hs.nodup) hcost
    rw [hzero, zero_add, zero_add]
    exact ⟨hpays, rfl⟩

theorem between_hasValue_iff {K : Type} [Scalar K] {mesh : Mesh K} (hrank : t.rank < wordLimit)
    (hs : source.Fits t mesh) (ht : target.Fits t mesh) :
    HasValue (Transition.between mesh t source target) ↔ source = target ∨ HasValue t.byteSize := by
  by_cases heq : source = target
  · refine iff_of_true ?_ (.inl heq)
    rw [Transition.between, if_pos heq]
    exact .ok _
  rw [or_iff_right heq]
  constructor
  · rintro ⟨tr, h⟩
    rw [Transition.between, if_neg heq] at h
    obtain ⟨_, -, h⟩ := bind_eq_ok_iff.mp h
    obtain ⟨cost, hcost, -⟩ := bind_eq_ok_iff.mp h
    have hrun := moves_run source target
    cases hmoves : moves source target with
    | nil =>
      rw [hmoves] at hrun
      exact absurd hrun.applyAll_eq heq
    | cons move moves =>
      rw [hmoves] at hcost
      obtain ⟨price, hprice, -⟩ := bind_eq_ok_iff.mp hcost
      exact Transition.byteSize_hasValue_of_movePrice hprice
  · rintro ⟨bytes, hbytes⟩
    obtain ⟨cost, hcost⟩ := between_eq_ok hrank hbytes hs ht
    exact ⟨_, hcost⟩

/-! ### Moves along axes of one device -/

section Axes

variable {K : Type} {mesh : Mesh K}

theorem Step.axis_lt (h : Step target l move) (hl : l.Fits t mesh) (ht : target.Fits t mesh) :
    move.axis < mesh.rank := by
  cases hg : move.giver? with
  | some dim =>
    have hmem : move.axis ∈ l.axes dim := (h.mem_axes_iff hl.nodup ht.nodup).mpr hg
    exact hl.axis_lt _ (Layout.mem_usedAxes.mpr ⟨dim, hmem⟩)
  | none =>
    have htaker : move.taker? ≠ none := fun hd => h.giver_ne_taker (hg.trans hd.symm)
    obtain ⟨dim, hd⟩ := Option.ne_none_iff_exists'.mp htaker
    exact ht.axis_lt _ (Layout.mem_usedAxes.mpr ⟨dim, h.mem_of_taker hd⟩)

theorem Run.axis_lt (h : Run target l moves last) (hs : source.Fits t mesh) (ht : target.Fits t mesh)
    (hl : OnRoute source target l) : ∀ move ∈ moves, move.axis < mesh.rank := by
  induction h with
  | nil l => exact nofun
  | cons hstep hrun ih =>
    exact List.forall_mem_cons.mpr
      ⟨hstep.axis_lt (hl.fits hs ht) ht, ih (hstep.onRoute ht.nodup hl)⟩

/-- **Moves along axes of one device** do not change in which order the longer axes split a dimension. -/
theorem Run.longAxes_eq (h : Run target l moves last) (ht : target.usedAxes.Nodup) (hl : l.usedAxes.Nodup)
    (hsize : ∀ move ∈ moves, mesh.axisSize? move.axis = some 1) (dim : Nat) :
    last.longAxes mesh dim = l.longAxes mesh dim := by
  induction h with
  | nil l => rfl
  | cons hstep hrun ih =>
    obtain ⟨hfirst, hrest⟩ := List.forall_mem_cons.mp hsize
    rw [ih (hstep.nodup_usedAxes hl ht) hrest]
    exact (hstep.relocates hl).longAxes_eq hfirst dim

end Axes

/-- **In exact arithmetic the price tells layouts apart.** Let no link have a negative price, and let both layouts fit
the tensor. Their transition is computed if they are equal or the size of the tensor can be counted. Neither pass
has a negative price, and the total is their sum. It is zero exactly if every move is along an axis of one device,
as it is for equal layouts, and positive if the layouts still differ without these axes. -/
theorem exact_price_tells_apart (mesh : Mesh ℚ) (hmesh : mesh.IsNonneg) (t : TensorType)
    (hs : source.violation? t mesh = .ok none) (ht : target.violation? t mesh = .ok none) :
    (t.rank < wordLimit →
      (HasValue (Transition.between mesh t source target) ↔ source = target ∨ HasValue t.byteSize)) ∧
    ∀ tr, Transition.between mesh t source target = .ok tr →
      0 ≤ tr.cost.forward ∧ 0 ≤ tr.cost.backward ∧ tr.cost.total = tr.cost.forward + tr.cost.backward ∧
      (tr.cost.total = 0 ↔ ∀ move ∈ tr.moves, mesh.axisSize? move.axis = some 1) ∧
      (source = target → tr.cost.total = 0) ∧
      ∀ dim, source.longAxes mesh dim ≠ target.longAxes mesh dim → 0 < tr.cost.total := by
  rw [Layout.violation?_eq_none_iff] at hs ht
  refine ⟨fun hrank => between_hasValue_iff hrank hs ht, fun tr htr => ?_⟩
  have hrun := moves_run source target
  obtain ⟨⟨hforward, hbackward, hzero⟩, htotal⟩ := pays_of_between hmesh hs ht htr
  rw [moves_of_between htr] at hzero ⊢
  have hfree : tr.cost.total = 0 ↔ ∀ move ∈ moves source target, mesh.axisSize? move.axis = some 1 := by
    rw [htotal, hzero]
    refine forall₂_congr fun move hmove => ?_
    exact Mesh.sizeAlong_eq_one_iff (hrun.axis_lt hs ht (.start hs.nodup) move hmove)
  refine ⟨hforward, hbackward, htotal, hfree, ?_, fun dim hne => ?_⟩
  · rintro rfl
    rw [hfree, moves_self]
    exact nofun
  · have hnonneg : 0 ≤ tr.cost.total := htotal ▸ add_nonneg hforward hbackward
    refine lt_of_le_of_ne hnonneg fun hfree' => hne ?_
    exact (hrun.longAxes_eq ht.nodup hs.nodup (hfree.mp hfree'.symm) dim).symm

end Route

/-- Two devices along the first of two axes, with links that are free. -/
def Mesh.thin : Mesh ℚ where
  devices := [4, 5]
  axes := [⟨"x", 2, ⟨0, 0⟩⟩, ⟨"y", 1, ⟨0, 0⟩⟩]
  size_pos := by simp
  names_nodup := by simp
  length_devices := rfl
  length_devices_lt := by decide

namespace Route

/-- Of a tensor without elements, splitting a dimension along the axis of one device is free, and along both axes it
is not, although nothing is sent and the links are free. -/
theorem exact_price_tells_apart_of_thin :
    Mesh.thin.IsNonneg ∧ Layout.replicated.violation? ⟨[0, 4], .f32⟩ Mesh.thin = .ok none ∧
      (Layout.ofPairs [(1, [1])]).violation? ⟨[0, 4], .f32⟩ Mesh.thin = .ok none ∧
      (Layout.ofPairs [(1, [1, 0])]).violation? ⟨[0, 4], .f32⟩ Mesh.thin = .ok none ∧
      (∃ tr, Transition.between .thin ⟨[0, 4], .f32⟩ .replicated (.ofPairs [(1, [1])]) = .ok tr ∧
        tr.cost.total = 0) ∧
      ∃ tr, Transition.between .thin ⟨[0, 4], .f32⟩ .replicated (.ofPairs [(1, [1, 0])]) = .ok tr ∧
        0 < tr.cost.total := by
  have hmesh : Mesh.thin.IsNonneg := by
    intro a ha
    simp only [Mesh.thin, List.mem_cons, List.not_mem_nil, or_false] at ha
    rcases ha with rfl | rfl
    · exact ⟨le_rfl, le_rfl⟩
    · exact ⟨le_rfl, le_rfl⟩
  have hbytes : HasValue (TensorType.byteSize ⟨[0, 4], .f32⟩) := ⟨0, rfl⟩
  have hreplicated : Layout.replicated.violation? ⟨[0, 4], .f32⟩ Mesh.thin = .ok none := rfl
  have hsingle : (Layout.ofPairs [(1, [1])]).violation? ⟨[0, 4], .f32⟩ Mesh.thin = .ok none := rfl
  have hboth : (Layout.ofPairs [(1, [1, 0])]).violation? ⟨[0, 4], .f32⟩ Mesh.thin = .ok none := rfl
  obtain ⟨hvalue, hprice⟩ := exact_price_tells_apart .thin hmesh _ hreplicated hsingle
  obtain ⟨hvalue', hprice'⟩ := exact_price_tells_apart .thin hmesh _ hreplicated hboth
  obtain ⟨tr, htr⟩ := (hvalue (by decide)).mpr (.inr hbytes)
  obtain ⟨tr', htr'⟩ := (hvalue' (by decide)).mpr (.inr hbytes)
  refine ⟨hmesh, hreplicated, hsingle, hboth, ⟨tr, htr, (hprice tr htr).2.2.2.1.mpr ?_⟩,
    tr', htr', (hprice' tr' htr').2.2.2.2.2 1 (by decide)⟩
  have hmoves : moves .replicated (.ofPairs [(1, [1])]) = [.split 1 1] := by decide +kernel
  rw [moves_of_between htr, hmoves]
  decide

end Route

end ShardPlan
