import Mathlib.Logic.Equiv.Basic
import ShardPlan.Proofs.Layout.LocalShape

/-! # Transposed layouts

Exchanging two dimensions of a layout goes with exchanging them in the tensor. The layout loses no dimension
(`partitions_transposed_perm`) and uses the same axes (`usedAxes_transposed_perm`), although the check of a
layout comes to them in another order. So the transposed layout fits the transposed tensor exactly if the
layout fits the tensor (`fits_transposed_iff`), and a device then holds the transposed part. -/

namespace ShardPlan

/-! ### Transposed tensors -/

namespace TensorType

variable {t : TensorType} {a b : Nat}

/-- Setting each of two entries to the other exchanges them, also if they are the same entry. -/
theorem getElem?_set_set {sizes : List Nat} {sizeA sizeB : Nat} (hA : sizes[a]? = some sizeA)
    (hB : sizes[b]? = some sizeB) (dim : Nat) :
    ((sizes.set a sizeB).set b sizeA)[dim]? = sizes[Layout.exchange a b dim]? := by
  have ha : a < sizes.length := (List.getElem?_eq_some_iff.mp hA).1
  have hb : b < sizes.length := (List.getElem?_eq_some_iff.mp hB).1
  rw [List.getElem?_set, List.getElem?_set, List.length_set, Layout.exchange]
  by_cases hdimB : b = dim
  · subst hdimB
    rw [if_pos rfl, if_pos hb, if_pos rfl]
    split_ifs with hsame
    · subst hsame
      exact hA.symm
    · exact hA.symm
  · rw [if_neg hdimB]
    by_cases hdimA : a = dim
    · subst hdimA
      rw [if_pos rfl, if_pos ha, if_pos rfl]
      exact hB.symm
    · rw [if_neg hdimA, if_neg (Ne.symm hdimA), if_neg (Ne.symm hdimB)]

theorem transposed_eq_ok (ha : a < t.rank) (hb : b < t.rank) : ∃ t', t.transposed a b = .ok t' ∧
    t'.element = t.element ∧ ∀ dim, t'.shape[dim]? = t.shape[Layout.exchange a b dim]? := by
  obtain ⟨sizeA, hA⟩ : ∃ size, t.shape[a]? = some size := ⟨_, List.getElem?_eq_getElem ha⟩
  obtain ⟨sizeB, hB⟩ : ∃ size, t.shape[b]? = some size := ⟨_, List.getElem?_eq_getElem hb⟩
  refine ⟨⟨(t.shape.set a sizeB).set b sizeA, t.element⟩, ?_, rfl, getElem?_set_set hA hB⟩
  rw [transposed, dimSize, dimSize, hA, hB]
  rfl

end TensorType

namespace Layout

variable {K : Type} {l : Layout} {t t' : TensorType} {mesh : Mesh K} {a b : Nat}

/-! ### Transposed layouts -/

theorem exchange_eq_swap (a b dim : Nat) : exchange a b dim = Equiv.swap a b dim :=
  (Equiv.swap_apply_def a b dim).symm

theorem transposed_transposed (l : Layout) (a b : Nat) : (l.transposed a b).transposed a b = l := by
  refine ext_axes fun dim => ?_
  rw [axes_transposed, axes_transposed, exchange_exchange]

/-- **No dimension is lost**: each is renamed, with its axes. -/
theorem partitions_transposed_perm (l : Layout) (a b : Nat) :
    (l.transposed a b).partitions.Perm (l.partitions.map fun e => (exchange a b e.1, e.2)) := by
  have hnodup : ∀ l : Layout, l.partitions.Nodup := fun l =>
    l.pairwise_partitions.imp fun {e e'} hne heq => hne (congrArg Prod.fst heq)
  have hrename : Function.Injective fun e : Nat × List Nat => (exchange a b e.1, e.2) := by
    rintro ⟨d, axes⟩ ⟨d', axes'⟩ heq
    obtain ⟨hdim, haxes⟩ := Prod.mk.inj heq
    exact Prod.ext (exchange_injective a b hdim) haxes
  refine (List.perm_ext_iff_of_nodup (hnodup _) ((hnodup l).map hrename)).mpr fun ⟨dim, axes⟩ => ?_
  rw [mem_partitions, axes_transposed, List.mem_map]
  constructor
  · intro h
    exact ⟨(exchange a b dim, axes), mem_partitions.mpr h, by rw [exchange_exchange]⟩
  · rintro ⟨e, he, heq⟩
    cases heq
    rw [exchange_exchange]
    exact mem_partitions.mp he

theorem usedAxes_transposed_perm (l : Layout) (a b : Nat) :
    (l.transposed a b).usedAxes.Perm l.usedAxes := by
  have hperm := (partitions_transposed_perm l a b).flatMap_right Prod.snd
  rwa [List.flatMap_map] at hperm

/-! ### Layouts that fit -/

section Transposed

variable (hshape : ∀ dim, t'.shape[dim]? = t.shape[exchange a b dim]?)
include hshape

theorem Fits.transposed (h : l.Fits t mesh) : (l.transposed a b).Fits t' mesh := by
  have hperm := usedAxes_transposed_perm l a b
  refine ⟨fun {dim} hdim => ?_, fun axis haxis => h.axis_lt axis (hperm.mem_iff.mp haxis),
    hperm.nodup_iff.mpr h.nodup⟩
  rw [axes_transposed] at hdim ⊢
  obtain ⟨size, hsize, hcut⟩ := h.cuts hdim
  exact ⟨size, (hshape dim).trans hsize, hcut⟩

/-- **The transposed layout fits the transposed tensor** exactly if the layout fits the tensor. -/
theorem fits_transposed_iff : l.Fits t mesh ↔ (l.transposed a b).Fits t' mesh := by
  refine ⟨Fits.transposed hshape, fun h => ?_⟩
  have hback : ∀ dim, t.shape[dim]? = t'.shape[exchange a b dim]? := fun dim => by
    rw [hshape, exchange_exchange]
  rw [← transposed_transposed l a b]
  exact h.transposed hback

theorem getElem?_localSizes_transposed (dim : Nat) :
    ((l.transposed a b).localSizes t' mesh)[dim]? = (l.localSizes t mesh)[exchange a b dim]? := by
  rw [getElem?_localSizes, getElem?_localSizes, hshape, axes_transposed]

end Transposed

/-- **A transposed layout follows the tensor.** The axes of the two dimensions are exchanged and all others
stay, no dimension is lost, and transposing again gives the layout back. For a tensor that has both
dimensions, the layout fits it exactly if the transposed layout fits the transposed tensor; then the part on
one device is transposed as well, and there are as many shards. -/
theorem transposed_follows_tensor (l : Layout) (a b : Nat) :
    (∀ dim, (l.transposed a b).axes dim = l.axes (Equiv.swap a b dim)) ∧
    (l.transposed a b).partitions.Perm (l.partitions.map fun e => (Equiv.swap a b e.1, e.2)) ∧
    (l.transposed a b).transposed a b = l ∧
    ∀ (t : TensorType) (mesh : Mesh K), a < t.rank → b < t.rank →
      ∃ t', t.transposed a b = .ok t' ∧ t'.element = t.element ∧
        (∀ dim, t'.shape[dim]? = t.shape[Equiv.swap a b dim]?) ∧
        (l.violation? t mesh = .ok none ↔ (l.transposed a b).violation? t' mesh = .ok none) ∧
        (l.violation? t mesh = .ok none → ∃ sizes sizes' total,
          l.localShape t mesh = .ok sizes ∧ (l.transposed a b).localShape t' mesh = .ok sizes' ∧
          (∀ dim, sizes'[dim]? = sizes[Equiv.swap a b dim]?) ∧
          l.totalShards mesh = .ok total ∧ (l.transposed a b).totalShards mesh = .ok total) := by
  simp only [← exchange_eq_swap, violation?_eq_none_iff]
  refine ⟨axes_transposed l a b, partitions_transposed_perm l a b, transposed_transposed l a b,
    fun t mesh ha hb => ?_⟩
  obtain ⟨t', ht', helement, hshape⟩ := TensorType.transposed_eq_ok ha hb
  refine ⟨t', ht', helement, hshape, fits_transposed_iff hshape, fun h => ?_⟩
  have h' : (l.transposed a b).Fits t' mesh := h.transposed hshape
  refine ⟨l.localSizes t mesh, (l.transposed a b).localSizes t' mesh, mesh.shardVolume l.usedAxes,
    h.within.localShape_eq_ok, h'.within.localShape_eq_ok, getElem?_localSizes_transposed hshape,
    h.within.totalShards_eq_ok, ?_⟩
  rw [h'.within.totalShards_eq_ok, Mesh.shardVolume_perm (usedAxes_transposed_perm l a b)]

/-- A split dimension exchanged with one that is not split. -/
theorem transposed_follows_tensor_of_lengthwise :
    0 < TensorType.rank ⟨[12, 5, 3], .f16⟩ ∧ 1 < TensorType.rank ⟨[12, 5, 3], .f16⟩ ∧
      TensorType.transposed ⟨[12, 5, 3], .f16⟩ 0 1 = .ok ⟨[5, 12, 3], .f16⟩ ∧
      Layout.lengthwise.violation? ⟨[12, 5, 3], .f16⟩ .slab = .ok none ∧
      (Layout.lengthwise.transposed 0 1).violation? ⟨[5, 12, 3], .f16⟩ .slab = .ok none ∧
      ∃ sizes, (Layout.lengthwise.transposed 0 1).localShape ⟨[5, 12, 3], .f16⟩ .slab = .ok sizes ∧
        (∀ dim, sizes[dim]? = [2, 5, 3][Equiv.swap 0 1 dim]?) ∧
        (Layout.lengthwise.transposed 0 1).totalShards .slab = .ok 6 := by
  have ha : 0 < TensorType.rank ⟨[12, 5, 3], .f16⟩ := by decide
  have hb : 1 < TensorType.rank ⟨[12, 5, 3], .f16⟩ := by decide
  have hfit : Layout.lengthwise.violation? ⟨[12, 5, 3], .f16⟩ .slab = .ok none := rfl
  have hsizes : Layout.lengthwise.localShape ⟨[12, 5, 3], .f16⟩ .slab = .ok [2, 5, 3] := rfl
  have htotal : Layout.lengthwise.totalShards .slab = .ok 6 := rfl
  obtain ⟨-, -, -, htensor⟩ := transposed_follows_tensor (K := Float) .lengthwise 0 1
  obtain ⟨t', ht', -, -, hiff, hparts⟩ := htensor ⟨[12, 5, 3], .f16⟩ .slab ha hb
  cases ht'
  obtain ⟨sizes, sizes', total, hsizes₀, hsizes', hswap, htotal₀, htotal'⟩ := hparts hfit
  cases hsizes.symm.trans hsizes₀
  cases htotal.symm.trans htotal₀
  exact ⟨ha, hb, rfl, hfit, hiff.mp hfit, sizes', hsizes', hswap, htotal'⟩

end Layout

end ShardPlan
