import ShardPlan.Proofs.Candidate.Elementwise
import ShardPlan.Proofs.Candidate.Linear

/-! # Strategies are computed

Generators cost every strategy that they list, whether it fits or not. They do so without a fault if the sizes
of the tensors can be counted (`TensorType.IsBounded`), since all that is multiplied beside them are the sizes
of axes that a layout uses at most once. -/

namespace ShardPlan

/-! ### Tensors whose sizes can be counted -/

/-- **A tensor whose sizes can be counted** in a machine word: its dimensions, the size of each of them, and
its bytes. -/
structure TensorType.IsBounded (t : TensorType) : Prop where
  rank_lt : t.rank < wordLimit
  size_lt : ∀ size ∈ t.shape, size < wordLimit
  byteSize : HasValue t.byteSize

/-- The operand is such a tensor, or no tensor. -/
def Operand.IsBounded (o : Operand) : Prop := ∀ t, o.tensor = some t → t.IsBounded

theorem TensorType.IsBounded.operand {t : TensorType} (h : t.IsBounded) {o : Operand}
    (ht : o.tensor = some t) : o.IsBounded := fun t' ht' => by
  cases ht.symm.trans ht'
  exact h

theorem TensorType.IsBounded.elementCount {t : TensorType} (h : t.IsBounded) :
    HasValue (Size.product t.shape) := by
  obtain ⟨bytes, hbytes⟩ := h.byteSize
  obtain ⟨count, hcount, -⟩ := bind_eq_ok_iff.mp hbytes
  exact ⟨count, hcount⟩

theorem Size.product_pair_eq_ok {a b : Nat} (ha : a < wordLimit) (hab : a * b < wordLimit) :
    product [a, b] = .ok (a * b) := by
  have hfirst : mul 1 a = .ok a := by rw [mul_eq_ok (by omega), Nat.one_mul]
  have hproduct : product [a, b] = mul 1 a >>= fun c => mul c b >>= pure := rfl
  rw [hproduct, hfirst]
  change (mul a b >>= pure) = _
  rw [bind_pure, mul_eq_ok hab]

theorem TensorType.IsBounded.transposed {t t' : TensorType} (h : t.IsBounded) (hrank : t.rank = 2)
    (htransposed : t.transposed 0 1 = .ok t') : t'.IsBounded := by
  obtain ⟨a, b, hshape⟩ := List.length_eq_two.mp hrank
  have ht' : t' = ⟨[b, a], t.element⟩ := by
    rw [TensorType.transposed, TensorType.dimSize, TensorType.dimSize, hshape] at htransposed
    cases htransposed
    rfl
  have hsizes : a < wordLimit ∧ b < wordLimit := by
    refine ⟨h.size_lt a ?_, h.size_lt b ?_⟩
    · rw [hshape]; simp
    · rw [hshape]; simp
  subst ht'
  have htwo : 2 < wordLimit := by decide
  refine ⟨htwo, fun size hsize => ?_, ?_⟩
  · rcases List.mem_cons.mp hsize with rfl | hsize
    · exact hsizes.2
    · rw [List.mem_singleton.mp hsize]
      exact hsizes.1
  · obtain ⟨bytes, hbytes⟩ := h.byteSize
    obtain ⟨count, hcount, hbytes⟩ := bind_eq_ok_iff.mp hbytes
    rw [TensorType.elementCount, hshape] at hcount
    have hvolume : count = a * b := by
      have hcount := Size.volume_of_product hcount
      simpa [Size.volume] using hcount
    have hlt := Size.product_lt hcount
    have hswapped : Size.product [b, a] = .ok count := by
      rw [Size.product_pair_eq_ok hsizes.2 (by rw [Nat.mul_comm]; omega), hvolume, Nat.mul_comm]
    exact ⟨bytes, bind_eq_ok_iff.mpr ⟨count, hswapped, hbytes⟩⟩

section Strategies

variable {o : Operand} {mesh : Mesh} {l : Layout} {rank : Nat}

theorem Operand.IsBounded.rank_lt (h : o.IsBounded) : o.rank < wordLimit := by
  cases ho : o.tensor with
  | none =>
    rw [rank, shape, ho]
    decide
  | some t =>
    rw [rank_eq ho]
    exact (h t ho).rank_lt

theorem Operand.IsBounded.elementCount (h : o.IsBounded) : HasValue (Size.product o.shape) := by
  cases ho : o.tensor with
  | none =>
    rw [shape, ho]
    exact .ok 1
  | some t =>
    rw [shape_eq ho]
    exact (h t ho).elementCount

theorem Operand.IsBounded.localBytes (h : o.IsBounded) (hl : l.Within rank mesh) :
    HasValue (o.localBytes l mesh) := by
  cases ho : o.tensor with
  | none =>
    rw [Operand.localBytes, ho]
    exact .ok _
  | some t =>
    obtain ⟨bytes, hbytes⟩ := (h t ho).byteSize
    rw [Operand.localBytes, ho]
    exact ⟨_, hl.localBytes_eq_ok hbytes⟩

/-! ### Inputs and outputs -/

theorem Boundary.inputGenerator_hasValue (h : o.IsBounded) :
    HasValue (inputGenerator mesh o).generate := by
  have hreplicated : Layout.replicated.Within 0 mesh := .replicated
  have hstrategy : HasValue (inputStrategy mesh o) :=
    (h.localBytes hreplicated).bind fun bytes _ => .ok _
  exact hstrategy.bind fun s _ => .ok _

theorem Boundary.outputGenerator_hasValue_iff {inputs : List Operand} :
    HasValue (outputGenerator mesh inputs).generate ↔
      ∀ o ∈ inputs, HasValue (o.localBytes .replicated mesh) := by
  have hstrategy : HasValue (outputGenerator mesh inputs).generate ↔
      HasValue (outputStrategy mesh inputs) := HasValue.bind_pure_iff
  have hbytes : HasValue (outputStrategy mesh inputs) ↔
      HasValue (inputs.mapM fun input => input.localBytes .replicated mesh) := HasValue.bind_pure_iff
  rw [hstrategy, hbytes, HasValue.mapM_iff]

theorem Boundary.outputGenerator_hasValue {inputs : List Operand} (h : ∀ o ∈ inputs, o.IsBounded) :
    HasValue (outputGenerator mesh inputs).generate := by
  have hreplicated : Layout.replicated.Within 0 mesh := .replicated
  exact outputGenerator_hasValue_iff.mpr fun o ho => (h o ho).localBytes hreplicated

/-! ### Element-wise operations -/

theorem Elementwise.share_hasValue {output input : Operand} (hinput : input.IsBounded)
    (hl : l.Within output.rank mesh) : HasValue (share mesh output l input) := by
  have hlayout : (inputLayout output.shape input.shape l).Within input.rank mesh :=
    inputLayout_within hl
  exact (hinput.localBytes hlayout).bind fun bytes _ =>
    (hlayout.compactSequence_hasValue hinput.rank_lt input.rank).bind fun text _ => .ok _

/-- **The strategies of an element-wise operation are computed**, the layouts of which fit or not. -/
theorem Elementwise.generator_hasValue {op : Elementwise} (hinputs : ∀ o ∈ op.inputs, o.IsBounded)
    (houtput : op.output.IsBounded) : HasValue (op.generator mesh).generate := by
  refine .mapM fun l hl => ?_
  have hl := outputLayouts_within hl
  have hshares : HasValue (op.inputs.mapM (share mesh op.output l)) :=
    .mapM fun input hinput => share_hasValue (hinputs input hinput) hl
  have hshards : HasValue (l.totalShards mesh) := ⟨_, hl.totalShards_eq_ok⟩
  exact houtput.elementCount.bind fun elements _ => hshards.bind fun shards _ =>
    (houtput.localBytes hl).bind fun bytes _ => hshares.bind fun shares _ =>
      (hl.compactSequence_hasValue houtput.rank_lt _).bind fun text _ => .ok _

/-! ### Linear layers -/

theorem nodup_eraseDups {α : Type} [BEq α] [LawfulBEq α] : ∀ list : List α, list.eraseDups.Nodup
  | [] => List.nodup_nil
  | a :: list => by
    rw [List.eraseDups_cons, List.nodup_cons]
    exact ⟨by simp, nodup_eraseDups _⟩
termination_by list => list.length
decreasing_by
  have := List.length_filter_le (fun b => !b == a) list
  simp
  omega

/-- The shards that the axes of a choice make are counted, however often the choice uses an axis. -/
theorem Linear.shardCount_hasValue {inputLast outputLast : Nat} {c : Choice}
    (hc : Combines inputLast outputLast mesh.rank c.input c.weight c.output) :
    HasValue (mesh.shardCount c.axes) := by
  refine ⟨_, Mesh.shardCount_eq_ok (nodup_eraseDups _) fun axis haxis => ?_⟩
  obtain ⟨l, hl, haxis⟩ := List.mem_flatMap.mp (List.mem_eraseDups.mp haxis)
  simp only [List.mem_cons, List.not_mem_nil, or_false] at hl
  rcases hl with rfl | rfl | rfl
  · exact hc.within_input.axis_lt axis haxis
  · exact hc.within_weight.axis_lt axis haxis
  · exact hc.within_output.axis_lt axis haxis

theorem Linear.ofPairs_within (h : l.Within rank mesh) (dim : Nat) :
    (Layout.ofPairs [(0, l.axes dim)]).Within 1 mesh := by
  refine h.of_axes (· + dim) (fun a b hab => by simpa using hab) fun {d} hd => ?_
  rw [Layout.axes_ofPairs_singleton] at hd ⊢
  split_ifs at hd ⊢ with heq
  · subst heq
    exact ⟨Nat.one_pos, by rw [Nat.zero_add]⟩
  · exact absurd rfl hd

theorem Linear.generator_hasValue {op : Linear} (hinput : op.input.IsBounded)
    (hweight : op.weight.IsBounded) (hbias : ∀ bias ∈ op.bias, bias.IsBounded)
    (houtput : op.output.IsBounded) : HasValue (op.generator mesh).generate := by
  refine .mapM fun c hc => ?_
  have hc := combines_of_mem_choices hc
  refine houtput.elementCount.bind fun elements _ => (shardCount_hasValue hc).bind fun shards _ =>
    (hinput.localBytes hc.within_input).bind fun inputBytes _ =>
      (hweight.localBytes hc.within_weight).bind fun weightBytes _ =>
        (houtput.localBytes hc.within_output).bind fun outputBytes _ => ?_
  cases hb : op.bias with
  | none => exact .ok _
  | some bias =>
    exact ((hbias bias hb).localBytes (ofPairs_within hc.within_output _)).bind fun _ _ => .ok _

end Strategies

end ShardPlan
