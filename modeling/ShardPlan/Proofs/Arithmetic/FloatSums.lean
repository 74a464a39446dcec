import Mathlib
import ShardPlan.Cost

/-! # Sums of floats that are not negative

A double is taken apart into a sign, a mantissa and an exponent, added without rounding, rounded and put
together again. None of this turns numbers that are not negative into one that is, nor into no number
(`zero_le_add`), so a sum of usable costs is usable unless it overflows (`StepCost.isUsable_eq_isFinite`). A
single cost does not overflow when it is added to zero (`StepCost.isUsable_sum_singleton`). -/

namespace ShardPlan

open Float.Model Float.Model.UnpackedFloat

/-! ### Floats in parts -/

/-- **A number that is not negative**, in parts. A zero may have either sign. -/
inductive IsNonneg : UnpackedFloat → Prop
  | infinity : IsNonneg (.infinity .positive)
  | zero (s : Sign) : IsNonneg (.zero s)
  | finite (m : Nat) (e : Int) (h : 0 < m) : IsNonneg (.finite .positive m e h)

theorem le_zero_unpacked {u : UnpackedFloat} :
    UnpackedFloat.le (.zero .positive) u = true ↔ IsNonneg u := by
  constructor
  · intro h
    rcases u with ⟨_ | _⟩ | _ | s | ⟨_ | _, m, e, hm⟩
    · exact absurd h (by decide)
    · exact .infinity
    · exact absurd h (by decide)
    · exact .zero s
    · exact nomatch h
    · exact .finite m e hm
  · rintro (_ | _ | _)
    · rfl
    · rfl
    · rfl

theorem lt_zero_unpacked {u : UnpackedFloat} (hu : u.isFinite = true) :
    UnpackedFloat.lt u (.zero .positive) = false ↔ IsNonneg u := by
  constructor
  · intro h
    rcases u with _ | _ | s | ⟨_ | _, m, e, hm⟩
    · exact nomatch hu
    · exact nomatch hu
    · exact .zero s
    · exact nomatch h
    · exact .finite m e hm
  · rintro (_ | _ | _)
    · rfl
    · rfl
    · rfl

theorem isNonneg_normalize {spec : Format} {m : Int} (hm : 0 ≤ m) (e : Int) :
    IsNonneg (UnpackedFloat.normalize spec m e .positive) := by
  unfold UnpackedFloat.normalize
  split
  · next hlt =>
    have hneg := Int.compare_eq_lt.mp hlt
    omega
  · exact .zero _
  · -- rounding may lose all digits, but not the sign
    unfold UnpackedFloat.round roundWithAccuracy
    dsimp only
    split
    · exact .zero _
    · exact .finite _ _ _

theorem isNonneg_add {spec : Format} {u v : UnpackedFloat} (hu : IsNonneg u) (hv : IsNonneg v) :
    IsNonneg (UnpackedFloat.add spec u v) := by
  cases hu with
  | infinity =>
    cases hv with
    | infinity => exact .infinity
    | zero s => exact .infinity
    | finite m e h => exact .infinity
  | zero s =>
    cases hv with
    | infinity => exact .infinity
    | zero s' =>
      unfold UnpackedFloat.add
      dsimp only
      split
      · exact .zero _
      · exact .zero _
    | finite m e h => exact .finite m e h
  | finite m e h =>
    cases hv with
    | infinity => exact .infinity
    | zero s => exact .finite m e h
    | finite m' e' h' =>
      unfold UnpackedFloat.add
      dsimp only [Sign.apply]
      exact isNonneg_normalize (by positivity) _

/-! ### Floats in bits -/

theorem sign_packComponents {spec : Format} {e : BitVec spec.exponentBits}
    {m : BitVec spec.mantissaBitsWithoutImplicit} :
    Sign.ofBitVec (unpackSign (packComponents spec .positive e m)) = .positive := by
  rw [unpackSign_packComponents, Sign.ofBitVec_toBitVec]

theorem isNonneg_unpack_packComponents {spec : Format} {e : BitVec spec.exponentBits}
    (he : e ≠ -1#_) (m : BitVec spec.mantissaBitsWithoutImplicit) :
    IsNonneg (UnpackedFloat.unpack spec (packComponents spec .positive e m)) := by
  unfold UnpackedFloat.unpack
  dsimp only
  rw [sign_packComponents, unpackExponent_packComponents, if_neg he]
  split
  · split
    · exact .zero _
    · exact .finite _ _ _
  · exact .finite _ _ _

theorem isNonneg_unpack_packedInfinity {spec : Format} :
    IsNonneg (UnpackedFloat.unpack spec (packedInfinity spec .positive)) := by
  have hmantissa : unpackMantissa (packComponents spec .positive (-1#_) 0) = 0#_ :=
    unpackMantissa_packComponents ..
  unfold UnpackedFloat.unpack
  dsimp only
  rw [packedInfinity, sign_packComponents, unpackExponent_packComponents, if_pos rfl,
    if_pos hmantissa]
  exact .infinity

/-- An exponent that can be stored is not the one of infinity. -/
theorem ofNat_ne_neg_one {w n : Nat} (h : n + 1 < 2 ^ w) : BitVec.ofNat w n ≠ -1#w := by
  intro heq
  have hnat := congrArg BitVec.toNat heq
  rw [BitVec.toNat_ofNat, BitVec.neg_one_eq_allOnes, BitVec.toNat_allOnes,
    Nat.mod_eq_of_lt (by omega)] at hnat
  omega

/-- **Putting a number together** keeps it from being negative, also where it is too large. -/
theorem isNonneg_unpack_pack {spec : Format} {u : UnpackedFloat} (hu : IsNonneg u) :
    IsNonneg (UnpackedFloat.unpack spec (UnpackedFloat.pack spec u)) := by
  cases hu with
  | infinity => exact isNonneg_unpack_packedInfinity
  | zero s =>
    rw [UnpackedFloat.pack, unpack_packedZero]
    exact .zero s
  | finite m e h =>
    unfold UnpackedFloat.pack
    dsimp only
    split
    · exact isNonneg_unpack_packedInfinity
    · next hsmall =>
      have hwidth : 2 ^ 1 ≤ 2 ^ spec.exponentBits := Nat.pow_le_pow_right (by decide) spec.he
      split
      · exact isNonneg_unpack_packComponents (ofNat_ne_neg_one (by omega)) _
      · exact isNonneg_unpack_packComponents (ofNat_ne_neg_one (by omega)) _

/-! ### Floats -/

theorem unpack_zero : (0.0 : Float).toModel.unpack = .zero .positive := rfl

theorem zero_le_iff {x : Float} : 0.0 ≤ x ↔ IsNonneg x.toModel.unpack := by
  rw [← le_zero_unpacked, ← unpack_zero]
  change decide ((0.0 : Float).toModel ≤ x.toModel) = true ↔ _
  rw [decide_eq_true_iff]
  rfl

theorem not_lt_zero_iff {x : Float} (hx : x.isFinite = true) : ¬ x < 0.0 ↔ 0.0 ≤ x := by
  rw [zero_le_iff, ← lt_zero_unpacked hx, ← unpack_zero, ← Bool.not_eq_true]
  change ¬ decide (x.toModel < (0.0 : Float).toModel) = true ↔ _
  rw [decide_eq_true_iff]
  rfl

/-- **A sum of numbers that are not negative** is not negative, and it is a number. -/
theorem zero_le_add {x y : Float} (hx : 0.0 ≤ x) (hy : 0.0 ≤ y) : 0.0 ≤ x + y := by
  rw [zero_le_iff] at hx hy ⊢
  exact isNonneg_unpack_pack (isNonneg_add hx hy)

theorem add_eq (x y : Float) : x + y = Float.ofModel (Float.Model.pack
    (UnpackedFloat.add .binary64 x.toModel.unpack y.toModel.unpack)) := rfl

theorem pack_unpack_toModel (x : Float) : Float.ofModel (Float.Model.pack x.toModel.unpack) = x := by
  obtain ⟨⟨bits, hvalid⟩⟩ := x
  have hbits : UnpackedFloat.pack .binary64 (UnpackedFloat.unpack .binary64 bits.toBitVec) =
      bits.toBitVec := pack_unpack_of_valid hvalid
  simp only [Float.Model.pack, Float.Model.unpack, hbits]

theorem zero_add_of_ne_zero {spec : Format} {u : UnpackedFloat} (hu : ∀ s, u ≠ .zero s) :
    UnpackedFloat.add spec (.zero .positive) u = u := by
  cases u with
  | zero s => exact absurd rfl (hu s)
  | infinity s => rfl
  | notANumber => rfl
  | finite s m e h => rfl

/-- Adding to zero changes nothing but the sign of a zero. -/
theorem zero_add_eq (x : Float) : 0.0 + x = x ∨ 0.0 + x = 0.0 := by
  by_cases hzero : ∃ s, x.toModel.unpack = .zero s
  · obtain ⟨s, hs⟩ := hzero
    right
    rw [add_eq, hs]
    cases s with
    | positive => rfl
    | negative => rfl
  · left
    have hne : ∀ s, x.toModel.unpack ≠ .zero s := fun s hs => hzero ⟨s, hs⟩
    rw [add_eq, unpack_zero, zero_add_of_ne_zero hne, pack_unpack_toModel]

/-! ### Costs -/

namespace StepCost

/-- Whether every field is a number that is not negative. It may be infinite. -/
def isNonneg (c : StepCost) : Bool := [c.forward, c.backward, c.total].all fun x => 0.0 ≤ x

/-- Whether every field is a finite number. -/
def isFinite (c : StepCost) : Bool := [c.forward, c.backward, c.total].all Float.isFinite

theorem isUsable_iff {c : StepCost} :
    c.isUsable = true ↔ c.isFinite = true ∧ c.isNonneg = true := by
  simp only [isUsable, isFinite, isNonneg, List.all_eq_true, Bool.and_eq_true]
  exact forall₂_and

/-- **A cost that is not negative** is usable exactly if it is finite. -/
theorem isUsable_eq_isFinite {c : StepCost} (h : c.isNonneg = true) : c.isUsable = c.isFinite :=
  Bool.eq_iff_iff.mpr (isUsable_iff.trans (and_iff_left h))

theorem isNonneg_iff {c : StepCost} :
    c.isNonneg = true ↔ 0.0 ≤ c.forward ∧ 0.0 ≤ c.backward ∧ 0.0 ≤ c.total := by
  simp [isNonneg]

theorem isNonneg_add {c d : StepCost} (hc : c.isNonneg = true) (hd : d.isNonneg = true) :
    (c + d).isNonneg = true := by
  rw [isNonneg_iff] at hc hd ⊢
  exact ⟨zero_le_add hc.1 hd.1, zero_le_add hc.2.1 hd.2.1, zero_le_add hc.2.2 hd.2.2⟩

/-- **A sum of usable costs** is not negative in any field, though it may be infinite. -/
theorem isNonneg_sum {costs : List StepCost} (h : ∀ c ∈ costs, c.isUsable = true) :
    (sum costs).isNonneg = true := by
  have hzero : (zero : StepCost).isNonneg = true := by decide +kernel
  refine List.foldlRecOn costs (· + ·) hzero (motive := fun cost => cost.isNonneg = true) ?_
  exact fun cost hcost c hc => isNonneg_add hcost (isUsable_iff.mp (h c hc)).2

theorem isUsable_sum_singleton {c : StepCost} (h : c.isUsable = true) :
    (sum [c]).isUsable = true := by
  have hfield : ∀ x : Float, (x.isFinite && decide (0.0 ≤ x)) = true →
      ((0.0 + x).isFinite && decide (0.0 ≤ 0.0 + x)) = true := by
    intro x hx
    rcases zero_add_eq x with heq | heq
    · rwa [heq]
    · rw [heq]
      decide +kernel
  rw [isUsable, List.all_eq_true] at h ⊢
  change ∀ x ∈ [c.forward, c.backward, c.total].map fun x => 0.0 + x, _
  rw [List.forall_mem_map]
  exact fun x hx => hfield x (h x hx)

end StepCost

end ShardPlan
