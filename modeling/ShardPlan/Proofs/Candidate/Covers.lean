import ShardPlan.Candidate.Boundary
import ShardPlan.Candidate.Elementwise
import ShardPlan.Candidate.Linear
import ShardPlan.Proofs.Arithmetic.Checked
import ShardPlan.Proofs.Arithmetic.Overflow

/-! # What the strategies of a generator are about

Whatever an operation lists, each of its strategies gives a layout to every operand of the operation, in
one fixed order, and one of them splits nothing; a list is missing only if a size overflows
(`Generator.Covers`). This holds of the generators of inputs and outputs, of element-wise operations and of
linear layers. -/

namespace ShardPlan

theorem Operand.shape_eq {o : Operand} {t : TensorType} (h : o.tensor = some t) : o.shape = t.shape := by
  rw [shape, h]

theorem Operand.rank_eq {o : Operand} {t : TensorType} (h : o.tensor = some t) : o.rank = t.rank := by
  rw [rank, shape_eq h, TensorType.rank]

/-- The operands that a strategy gives a layout to, in order. -/
def Strategy.operands (s : Strategy) : List Operand := s.layouts.map Prod.fst

/-- No operand is split. -/
def Strategy.IsReplicated (s : Strategy) : Prop := ∀ e ∈ s.layouts, e.2 = .replicated

/-- There are strategies, and the first of them splits nothing. -/
def StartReplicated (strategies : List Strategy) : Prop :=
  ∃ first rest, strategies = first :: rest ∧ first.IsReplicated

/-- **A generator covers operands** if every strategy that it lists is about them, in this order, and one
of the strategies splits nothing. -/
structure Generator.Covers (g : Generator) (operands : List Operand) : Prop where
  onlyOverflows : OnlyOverflows g.generate
  operands_eq : ∀ {strategies}, g.generate = .ok strategies →
    ∀ s ∈ strategies, s.operands = operands
  exists_replicated : ∀ {strategies}, g.generate = .ok strategies →
    ∃ s ∈ strategies, s.IsReplicated

section Covers

variable {mesh : Mesh} {operands : List Operand}

theorem startReplicated_of_mapM {α : Type} {f : α → Checked Strategy} {first : α} {choices : List α}
    (hfirst : ∀ {s}, f first = .ok s → s.IsReplicated) {strategies : List Strategy}
    (h : (first :: choices).mapM f = .ok strategies) : StartReplicated strategies := by
  obtain ⟨s, rest, hs, -, rfl⟩ := List.forall₂_cons_left_iff.mp (mapM_eq_ok_iff.mp h)
  exact ⟨s, rest, rfl, hfirst hs⟩

theorem Generator.Covers.of_mapM {g : Generator} {α : Type} {f : α → Checked Strategy} {first : α}
    {choices : List α} (hg : g.generate = (first :: choices).mapM f)
    (hf : ∀ c, OnlyOverflows (f c))
    (hoperands : ∀ {c s}, f c = .ok s → s.operands = operands)
    (hfirst : ∀ {s}, f first = .ok s → s.IsReplicated) : g.Covers operands := by
  refine ⟨hg ▸ OnlyOverflows.mapM hf, fun h s hs => ?_, fun h => ?_⟩
  · obtain ⟨c, -, hc⟩ := (mem_of_forall₂ (mapM_eq_ok_iff.mp (hg.symm.trans h))).1 s hs
    exact hoperands hc
  · obtain ⟨s, rest, rfl, hs⟩ := startReplicated_of_mapM hfirst (hg.symm.trans h)
    exact ⟨s, by simp, hs⟩

theorem Generator.eq_singleton_of_generate {g : Generator} {x : Checked Strategy}
    (hg : g.generate = x >>= fun s => pure [s]) {strategies : List Strategy}
    (h : g.generate = .ok strategies) : ∃ s, x = .ok s ∧ strategies = [s] := by
  rw [hg] at h
  obtain ⟨s, hs, h⟩ := bind_eq_ok_iff.mp h
  exact ⟨s, hs, (Except.ok.inj h).symm⟩

theorem Generator.Covers.of_single {g : Generator} {x : Checked Strategy}
    (hg : g.generate = x >>= fun s => pure [s]) (honly : OnlyOverflows x)
    (hx : ∀ {s}, x = .ok s → s.operands = operands ∧ s.IsReplicated) : g.Covers operands := by
  refine ⟨hg ▸ honly.bind fun s => .ok [s], fun h s hs => ?_, fun h => ?_⟩
  · obtain ⟨s', hs', rfl⟩ := Generator.eq_singleton_of_generate hg h
    rw [List.mem_singleton.mp hs]
    exact (hx hs').1
  · obtain ⟨s, hs, rfl⟩ := Generator.eq_singleton_of_generate hg h
    exact ⟨s, by simp, (hx hs).2⟩

/-! ### Inputs and outputs -/

namespace Boundary

variable {output : Operand} {inputs : List Operand} {s : Strategy} {strategies : List Strategy}

theorem of_inputStrategy (h : inputStrategy mesh output = .ok s) :
    s.operands = [output] ∧ s.IsReplicated := by
  obtain ⟨bytes, -, h⟩ := bind_eq_ok_iff.mp h
  cases h
  exact ⟨rfl, fun e he => by rw [List.mem_singleton.mp he]⟩

theorem of_outputStrategy (h : outputStrategy mesh inputs = .ok s) :
    s.operands = inputs ∧ s.IsReplicated := by
  obtain ⟨bytes, -, h⟩ := bind_eq_ok_iff.mp h
  cases h
  refine ⟨?_, fun e he => ?_⟩
  · rw [Strategy.operands, List.map_map]
    exact List.map_id inputs
  · obtain ⟨input, -, rfl⟩ := List.mem_map.mp he
    rfl

theorem isReplicated_of_inputGenerator (h : (inputGenerator mesh output).generate = .ok strategies) :
    ∀ s ∈ strategies, s.IsReplicated := by
  obtain ⟨s, hs, rfl⟩ := Generator.eq_singleton_of_generate rfl h
  intro s' hs'
  rw [List.mem_singleton.mp hs']
  exact (of_inputStrategy hs).2

theorem startReplicated_of_inputGenerator
    (h : (inputGenerator mesh output).generate = .ok strategies) : StartReplicated strategies := by
  obtain ⟨s, hs, rfl⟩ := Generator.eq_singleton_of_generate rfl h
  exact ⟨s, [], rfl, (of_inputStrategy hs).2⟩

theorem startReplicated_of_outputGenerator
    (h : (outputGenerator mesh inputs).generate = .ok strategies) : StartReplicated strategies := by
  obtain ⟨s, hs, rfl⟩ := Generator.eq_singleton_of_generate rfl h
  exact ⟨s, [], rfl, (of_outputStrategy hs).2⟩

theorem isReplicated_of_outputGenerator (h : (outputGenerator mesh inputs).generate = .ok strategies) :
    ∀ s ∈ strategies, s.IsReplicated := by
  obtain ⟨s, hs, rfl⟩ := Generator.eq_singleton_of_generate rfl h
  intro s' hs'
  rw [List.mem_singleton.mp hs']
  exact (of_outputStrategy hs).2

theorem inputGenerator_covers : (inputGenerator mesh output).Covers [output] := by
  have honly : OnlyOverflows (inputStrategy mesh output) :=
    (onlyOverflows_localBytes _ mesh output).bind fun bytes => .ok _
  exact .of_single rfl honly of_inputStrategy

theorem outputGenerator_covers : (outputGenerator mesh inputs).Covers inputs := by
  have honly : OnlyOverflows (outputStrategy mesh inputs) :=
    (OnlyOverflows.mapM fun input => onlyOverflows_localBytes _ mesh input).bind fun bytes => .ok _
  exact .of_single rfl honly of_outputStrategy

end Boundary

/-! ### Element-wise operations -/

namespace Elementwise

variable {op : Elementwise} {l : Layout} {s : Strategy}

/-- A strategy gives the chosen layout to the output, and to the inputs those that follow it. It has no prices, and
its name starts with the layout of the output. -/
theorem of_strategy (h : op.strategy mesh l = .ok s) :
    s.layouts = op.inputs.map (fun input =>
      (input, inputLayout op.output.shape input.shape l)) ++ [(op.output, l)] ∧
        s.resharding = .empty ∧
        ∃ text rest, l.compactSequence op.output.rank = .ok text ∧ s.name = text ++ " = " ++ rest := by
  obtain ⟨elements, -, h⟩ := bind_eq_ok_iff.mp h
  obtain ⟨shards, -, h⟩ := bind_eq_ok_iff.mp h
  obtain ⟨outputBytes, -, h⟩ := bind_eq_ok_iff.mp h
  obtain ⟨shares, hshares, h⟩ := bind_eq_ok_iff.mp h
  obtain ⟨outputText, htext, h⟩ := bind_eq_ok_iff.mp h
  cases h
  have hlayouts : shares.map Share.layout =
      op.inputs.map fun input => inputLayout op.output.shape input.shape l := by
    refine map_of_mapM_eq_ok (fun {input share} hshare => ?_) hshares
    obtain ⟨bytes, -, hshare⟩ := bind_eq_ok_iff.mp hshare
    obtain ⟨text, -, hshare⟩ := bind_eq_ok_iff.mp hshare
    cases hshare
    rfl
  rw [hlayouts, ← List.map_prod_left_eq_zip]
  exact ⟨rfl, rfl, outputText, _, htext, rfl⟩

theorem layouts_of_strategy (h : op.strategy mesh l = .ok s) :
    s.layouts = op.inputs.map (fun input =>
      (input, inputLayout op.output.shape input.shape l)) ++ [(op.output, l)] :=
  (of_strategy h).1

theorem onlyOverflows_strategy : OnlyOverflows (op.strategy mesh l) := by
  have hshare : ∀ input, OnlyOverflows (share mesh op.output l input) := fun input =>
    (onlyOverflows_localBytes _ mesh input).bind fun bytes =>
      (onlyOverflows_compactSequence _ input.rank).bind fun text => .ok _
  exact (onlyOverflows_product op.output.shape).bind fun elements =>
    (onlyOverflows_totalShards l mesh).bind fun shards =>
      (onlyOverflows_localBytes l mesh op.output).bind fun bytes =>
        (OnlyOverflows.mapM hshare).bind fun shares =>
          (onlyOverflows_compactSequence l op.output.rank).bind fun text => .ok _

/-- The inputs follow an output that is not split. -/
theorem isReplicated_of_strategy (h : op.strategy mesh .replicated = .ok s) : s.IsReplicated := by
  rw [Strategy.IsReplicated, layouts_of_strategy h]
  intro e he
  rcases List.mem_append.mp he with he | he
  · obtain ⟨input, -, rfl⟩ := List.mem_map.mp he
    rfl
  · rw [List.mem_singleton.mp he]

theorem generator_covers : (op.generator mesh).Covers (op.inputs ++ [op.output]) := by
  refine .of_mapM rfl (fun l => onlyOverflows_strategy) (fun {l s} h => ?_) isReplicated_of_strategy
  rw [Strategy.operands, layouts_of_strategy h, List.map_append, List.map_map]
  exact congrArg (· ++ [op.output]) (List.map_id op.inputs)

theorem startReplicated_of_generator {strategies : List Strategy}
    (h : (op.generator mesh).generate = .ok strategies) : StartReplicated strategies :=
  startReplicated_of_mapM isReplicated_of_strategy h

end Elementwise

/-! ### Linear layers -/

namespace Linear

variable {op : Linear} {c : Choice} {s : Strategy}

/-- A strategy has the name and the layouts of its choice, and for the bias the one that follows. It has no prices. -/
theorem of_strategy (h : op.strategy mesh c = .ok s) :
    s.layouts = [(op.input, c.input), (op.weight, c.weight)]
      ++ (op.bias.toList.map fun bias => (bias, op.biasLayout c)) ++ [(op.output, c.output)] ∧
        s.resharding = .empty ∧ s.name = c.name := by
  obtain ⟨elements, -, h⟩ := bind_eq_ok_iff.mp h
  obtain ⟨shards, -, h⟩ := bind_eq_ok_iff.mp h
  obtain ⟨inputBytes, -, h⟩ := bind_eq_ok_iff.mp h
  obtain ⟨weightBytes, -, h⟩ := bind_eq_ok_iff.mp h
  obtain ⟨outputBytes, -, h⟩ := bind_eq_ok_iff.mp h
  split at h
  · obtain ⟨biasBytes, -, h⟩ := bind_eq_ok_iff.mp h
    cases h
    exact ⟨rfl, rfl, rfl⟩
  · cases h
    exact ⟨rfl, rfl, rfl⟩

theorem layouts_of_strategy (h : op.strategy mesh c = .ok s) :
    s.layouts = [(op.input, c.input), (op.weight, c.weight)]
      ++ (op.bias.toList.map fun bias => (bias, op.biasLayout c)) ++ [(op.output, c.output)] :=
  (of_strategy h).1

theorem onlyOverflows_strategy : OnlyOverflows (op.strategy mesh c) := by
  refine (onlyOverflows_product op.output.shape).bind fun elements =>
    (onlyOverflows_shardCount mesh c.axes).bind fun shards =>
      (onlyOverflows_localBytes c.input mesh op.input).bind fun inputBytes =>
        (onlyOverflows_localBytes c.weight mesh op.weight).bind fun weightBytes =>
          (onlyOverflows_localBytes c.output mesh op.output).bind fun outputBytes => ?_
  cases op.bias with
  | some bias => exact (onlyOverflows_localBytes _ mesh bias).bind fun biasBytes => .ok _
  | none => exact .ok _

/-- The first choice splits nothing, and the bias follows the output. -/
theorem isReplicated_of_strategy (h : op.strategy mesh { name := "RR = RR x RR" } = .ok s) :
    s.IsReplicated := by
  rw [Strategy.IsReplicated, layouts_of_strategy h]
  intro e he
  rcases List.mem_append.mp he with he | he
  · rcases List.mem_append.mp he with he | he
    · rcases List.mem_cons.mp he with rfl | he
      · rfl
      · rw [List.mem_singleton.mp he]
    · obtain ⟨bias, -, rfl⟩ := List.mem_map.mp he
      rfl
  · rw [List.mem_singleton.mp he]

/-- **The strategies of a linear layer** are about the input, the weight, the bias if there is one and the
result. -/
theorem generator_covers : (op.generator mesh).Covers
    ([op.input, op.weight] ++ op.bias.toList ++ [op.output]) := by
  refine .of_mapM rfl (fun c => onlyOverflows_strategy) (fun {c s} h => ?_) isReplicated_of_strategy
  have hbias : (op.bias.toList.map fun bias => (bias, op.biasLayout c)).map Prod.fst =
      op.bias.toList := by
    rw [List.map_map]
    exact List.map_id op.bias.toList
  rw [Strategy.operands, layouts_of_strategy h, List.map_append, List.map_append, hbias]
  rfl

theorem startReplicated_of_generator {strategies : List Strategy}
    (h : (op.generator mesh).generate = .ok strategies) : StartReplicated strategies :=
  startReplicated_of_mapM isReplicated_of_strategy h

end Linear

end Covers

end ShardPlan
