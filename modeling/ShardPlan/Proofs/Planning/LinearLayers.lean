import ShardPlan.Proofs.Candidate.Linear
import ShardPlan.Proofs.Planning.Order
import ShardPlan.Proofs.Planning.Committed

/-! # Linear layers

The handler of linear layers lists strategies about the transposed weight and turns them into strategies about
the weight as it is stored. What becomes of a choice is known in full (`Handler.layouts_of_layer`), and with
it what is committed for a linear layer: its operands, in order, and layouts that go together
(`layer_strategies_align`). -/

namespace ShardPlan

namespace Handler

variable {site : Site}

/-! ### Candidates -/

/-- The layouts of the operands of a layer, the weight as it is stored. -/
def layerLayouts (site : Site) (m : ModuleTree) (i : Operand) (w : TensorType)
    (input weight bias output : Layout) : List (Operand × Layout) :=
  [(i, input), (.ofParameter "weight" w, weight)] ++ ((bias? m).toList.map fun b => (b, bias))
    ++ [(.ofResult site.node, output)]

/-- **The candidates of a linear layer** are about its first argument, the stored weight, the bias if it has
one, and the result. Each is made from a choice, with the layout of the weight transposed. -/
theorem layouts_of_layer {m : ModuleTree} {strategies : List Strategy}
    (h : (layer site m).candidates = .ok strategies) :
    ∃ first i w, site.node.args[0]? = some first ∧ site.Feeds first i ∧
      m.parameters.get? "weight" = some w ∧ w.rank = 2 ∧ ∀ s ∈ strategies,
        ∃ c ∈ Linear.choices (Linear.lastDim i) (Linear.lastDim (.ofResult site.node)) site.mesh.rank,
          s.layouts = layerLayouts site m i w c.input (c.weight.transposed 0 1)
            (.ofPairs [(0, c.output.axes (Linear.lastDim (.ofResult site.node)))]) c.output := by
  obtain ⟨generators, hgen⟩ := exists_generators h
  obtain ⟨i, logical, o, hi, hlogical, ho, rfl⟩ := layer_generators_iff.mp hgen
  obtain ⟨generated, refined, hgenerated, hrefined, rfl⟩ := (candidates_eq_ok_iff hgen).mp h
  obtain ⟨first, hfirst, hfeeds⟩ := Site.argument_eq_ok_iff.mp hi
  obtain ⟨w, w', hw, hrank, hw', rfl⟩ := logicalWeight_eq_ok_iff.mp hlogical
  obtain ⟨-, rfl⟩ := Site.result_eq_ok_iff.mp ho
  refine ⟨first, i, w, hfirst, hfeeds, hw, hrank, fun s hs => ?_⟩
  obtain ⟨list, hlist, hs⟩ := List.mem_flatten.mp hs
  obtain ⟨s₀, hs₀, hlist⟩ := (mem_of_forall₂ (mapM_eq_ok_iff.mp hrefined)).1 list hlist
  obtain ⟨c, hc, hs₀⟩ := (mem_of_forall₂ (mapM_eq_ok_iff.mp hgenerated)).1 s₀ hs₀
  have hstore := storeWeight_eq hfeeds hw hrank hw' (Linear.layouts_of_strategy hs₀)
  cases hstore.symm.trans hlist
  rw [List.mem_singleton.mp hs]
  exact ⟨c, hc, rfl⟩

end Handler

/-! ### Committed strategies -/

/-- **The layouts of a linear layer go together**, with the features of the output first in the weight: the
contracted dimension is split alike in the weight and the input, the features of the output as those of the
weight and of the bias, and the batch as that of the input. No axis that splits the contracted dimension
splits the output. -/
structure Linear.StoredAligned (last : Nat) (input weight bias output : Layout) : Prop where
  contracted : weight.axes 1 = input.axes last
  features : weight.axes 0 = output.axes last
  bias : bias.axes 0 = output.axes last
  batch : ∀ dim < last, output.axes dim = input.axes dim
  disjoint : ∀ axis ∈ input.axes last, ∀ dim, axis ∉ output.axes dim

theorem Linear.Aligned.stored {last : Nat} {input weight output : Layout}
    (h : Aligned last input weight output) :
    StoredAligned last input (weight.transposed 0 1) (.ofPairs [(0, output.axes last)]) output := by
  refine ⟨?_, ?_, ?_, fun dim hdim => h.batch hdim, fun axis haxis dim hdim => ?_⟩
  · rw [Layout.axes_transposed, ← h.contracted]
    rfl
  · rw [Layout.axes_transposed, ← h.features]
    rfl
  · rw [Layout.axes_ofPairs_singleton, if_pos rfl]
  · exact h.disjoint haxis (Layout.mem_usedAxes.mpr ⟨dim, hdim⟩)

section Running

variable {m : Type → Type} [Monad m] [MonadExceptOf (Failure Refusal) m] [Runs m]

/-- **What is committed for a linear layer** whose input and output have the same rank: the operands are its
input, its weight as it is stored, its bias if it has one, and its output, in this order, and their layouts go
together. -/
theorem layer_strategies_align [LawfulMonad m] {site : Site} {handler : Handler}
    (hhandler : Handler.linear site = .ok handler) {first : Nat} {arg : Node}
    (hfirst : site.node.args[0]? = some first) (harg : site.graph.node? first = some arg)
    {t t' : TensorType} (ht : arg.tensor = some t) (ht' : site.node.tensor = some t')
    (hrank : t.rank = t'.rank) {session : Session m} {published : Published} {pricing : Bool}
    {r : Registration} (h : CanEnd (register session site published handler pricing) (.ok r)) :
    ∃ called w, site.calledModule = .ok called ∧ called.parameters.get? "weight" = some w ∧
      w.rank = 2 ∧ ∀ s ∈ r.candidates.strategies, ∃ input weight bias output,
        s.layouts = Handler.layerLayouts site called (.ofArgument arg) w input weight bias output ∧
          Linear.StoredAligned (t.rank - 1) input weight bias output := by
  obtain ⟨called, hcalled, rfl⟩ := Handler.linear_eq_ok_iff.mp hhandler
  obtain ⟨-, strategies, hcandidates, hjudged⟩ := register_ok h
  obtain ⟨first', i, w, hfirst', hfeeds, hw, hmatrix, hlayouts⟩ := Handler.layouts_of_layer hcandidates
  obtain ⟨arg', harg', -, rfl⟩ := hfeeds
  cases hfirst.symm.trans hfirst'
  cases harg.symm.trans harg'
  have hinput : Linear.lastDim (.ofArgument arg) = t.rank - 1 := by
    rw [Linear.lastDim, Operand.rank_eq ht]
  have houtput : Linear.lastDim (.ofResult site.node) = t.rank - 1 := by
    rw [Linear.lastDim, Operand.rank_eq ht', hrank]
  rw [hinput, houtput] at hlayouts
  refine ⟨called, w, hcalled, hw, hmatrix, fun s hs => ?_⟩
  obtain ⟨s₀, hs₀, -, hpriced⟩ := hjudged.exists_candidate s hs
  obtain ⟨c, hc, hs₀⟩ := hlayouts s₀ hs₀
  have haligned := (Linear.combines_of_mem_choices hc).aligned
  exact ⟨_, _, _, _, hpriced.layouts_eq.trans hs₀, haligned.stored⟩

end Running

/-- A linear layer with a square weight and a bias. -/
def ModuleTree.squareLayer : ModuleTree :=
  ((⟨"linear", .empty, .empty, []⟩ : ModuleTree).withParameter "weight" ⟨[4, 4], .f32⟩).withParameter
    "bias" ⟨[4], .f32⟩

/-- An input and a linear layer with a square weight. -/
def Graph.layered : Graph where
  nodes := [⟨0, "x", .input, [], [1], some ⟨[8, 4], .f32⟩⟩,
    ⟨1, "fc", .module "", [0], [], some ⟨[8, 4], .f32⟩⟩]
  owner := some .squareLayer
  map_id_nodes := rfl
  args_lt := by decide

/-- The linear layer, on four devices. -/
def Site.squareLayer : Site :=
  ⟨.layered, ⟨1, "fc", .module "", [0], [], some ⟨[8, 4], .f32⟩⟩, .square⟩

/-- All eleven strategies of a layer are committed whose weight is not told from its transpose. -/
theorem layer_strategies_align_of_square : ∃ handler r,
    Handler.linear .squareLayer = .ok handler ∧
      register Session.free .squareLayer .empty handler false = .ok r ∧
      r.candidates.strategies.length = 11 ∧
      TensorType.transposed ⟨[4, 4], .f32⟩ 0 1 = .ok ⟨[4, 4], .f32⟩ ∧
      ∀ s ∈ r.candidates.strategies, ∃ input weight bias output,
        s.layouts = Handler.layerLayouts .squareLayer .squareLayer
            (.ofArgument ⟨0, "x", .input, [], [1], some ⟨[8, 4], .f32⟩⟩) ⟨[4, 4], .f32⟩
            input weight bias output ∧
          Linear.StoredAligned 1 input weight bias output := by
  have hhandler : Handler.linear .squareLayer = .ok (.layer .squareLayer .squareLayer) := rfl
  obtain ⟨r, hr, hcount⟩ : ∃ r,
      register Session.free .squareLayer .empty (.layer .squareLayer .squareLayer) false = .ok r ∧
        r.candidates.strategies.length = 11 := ⟨_, rfl, rfl⟩
  refine ⟨_, r, hhandler, hr, hcount, rfl, ?_⟩
  have hend : CanEnd (register Session.free .squareLayer .empty
      (.layer .squareLayer .squareLayer) false) (.ok r) := hr
  obtain ⟨called, w, hcalled, hw, -, hall⟩ :=
    layer_strategies_align hhandler rfl rfl rfl rfl rfl hend
  cases hcalled
  cases hw
  exact hall

end ShardPlan
