import ShardPlan.Arithmetic.Outcome
import ShardPlan.Candidate.Operand
import ShardPlan.Layout.Sequence
import ShardPlan.Layout.Shards

/-! # Computations that fail by overflow only

Sizes are checked, so a computation with sizes can fail. `OnlyOverflows` says that it fails in no other way
than by a number that does not fit a machine word. The property is composed like the computations are:
products of sizes have it, and from them the bytes of a tensor, the shards of a layout and its text. -/

namespace ShardPlan

/-- The fault is that a number does not fit a machine word. -/
def Fault.IsOverflow (f : Fault) : Prop := f = .productOverflow ∨ f = .sumOverflow

/-- The failure is such a fault. -/
def Failure.IsOverflow {ε : Type} (e : Failure ε) : Prop := ∃ f : Fault, e = .fault f ∧ f.IsOverflow

/-- **A computation that fails by overflow only.** -/
def OnlyOverflows {α : Type} (x : Checked α) : Prop := ∀ f, x = .error f → f.IsOverflow

namespace OnlyOverflows

variable {α β : Type}

theorem ok (a : α) : OnlyOverflows (.ok a) := nofun

theorem bind {x : Checked α} {f : α → Checked β} (hx : OnlyOverflows x)
    (hf : ∀ a, OnlyOverflows (f a)) : OnlyOverflows (x >>= f) := by
  intro e he
  cases h : x with
  | ok a =>
    rw [h] at he
    exact hf a e he
  | error e' =>
    rw [h] at he
    cases he
    exact hx e h

theorem mapM {f : α → Checked β} : ∀ {list : List α}, (∀ a, OnlyOverflows (f a)) →
    OnlyOverflows (list.mapM f)
  | [], _ => ok []
  | a :: list, hf => by
    rw [List.mapM_cons]
    exact (hf a).bind fun b => (mapM hf).bind fun bs => ok (b :: bs)

theorem foldlM {f : β → α → Checked β} : ∀ {list : List α} {b : β}, (∀ b a, OnlyOverflows (f b a)) →
    OnlyOverflows (list.foldlM f b)
  | [], b, _ => ok b
  | a :: list, b, hf => by
    rw [List.foldlM_cons]
    exact (hf b a).bind fun b' => foldlM hf

theorem ofChecked {ε : Type} {x : Checked α} (hx : OnlyOverflows x) {e : Failure ε}
    (h : Outcome.ofChecked x = .error e) : e.IsOverflow := by
  cases x with
  | ok a => exact nomatch h
  | error f =>
    cases h
    exact ⟨f, rfl, hx f rfl⟩

end OnlyOverflows

/-! ### Sizes and bytes -/

theorem onlyOverflows_mul (a b : Nat) : OnlyOverflows (Size.mul a b) := by
  intro f h
  unfold Size.mul at h
  split at h
  · exact nomatch h
  · cases h
    exact .inl rfl

theorem onlyOverflows_succ (a : Nat) : OnlyOverflows (Size.succ a) := by
  intro f h
  unfold Size.succ at h
  split at h
  · exact nomatch h
  · cases h
    exact .inr rfl

theorem onlyOverflows_product (sizes : List Nat) : OnlyOverflows (Size.product sizes) :=
  .foldlM onlyOverflows_mul

theorem onlyOverflows_byteSize (t : TensorType) : OnlyOverflows t.byteSize :=
  (onlyOverflows_product t.shape).bind fun count => onlyOverflows_mul count t.element.size

section Layout

variable {K : Type} (l : Layout) (mesh : Mesh K)

theorem onlyOverflows_shardCount (axes : List Nat) : OnlyOverflows (mesh.shardCount axes) :=
  onlyOverflows_product _

theorem onlyOverflows_totalShards : OnlyOverflows (l.totalShards mesh) := by
  have hcounts : OnlyOverflows (l.partitions.mapM fun e => mesh.shardCount e.2) :=
    .mapM fun e => onlyOverflows_shardCount mesh e.2
  exact hcounts.bind onlyOverflows_product

theorem onlyOverflows_localBytes [Scalar K] (o : Operand) : OnlyOverflows (o.localBytes l mesh) := by
  unfold Operand.localBytes
  split
  · rename_i t _
    exact (onlyOverflows_byteSize t).bind fun bytes => (onlyOverflows_totalShards l mesh).bind fun shards =>
      .ok _
  · exact .ok _

/-! ### Texts -/

theorem onlyOverflows_compactSequence (rank : Nat) : OnlyOverflows (l.compactSequence rank) := by
  have hlength : OnlyOverflows (l.sequenceLength rank) := by
    unfold Layout.sequenceLength
    split
    · exact .ok rank
    · rename_i dim _
      exact (onlyOverflows_succ dim).bind fun length => .ok _
  exact (hlength.bind fun length => .ok _).bind fun dims => .ok _

end Layout

end ShardPlan
