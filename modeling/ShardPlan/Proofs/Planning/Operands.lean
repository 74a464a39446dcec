import Mathlib.Data.List.Nodup
import Std.Data.String.ToNat
import ShardPlan.Planning.Handler
import ShardPlan.Proofs.Arithmetic.Checked

/-! # The operands that handlers know

A node has its result and its arguments as operands if they are tensors (`Site.Feeds`). From them, and from
the parameters of the module that it calls, a handler fills a map of logical operands. For every handler
the maps that it can fill are listed, and what is read back from them. -/

namespace ShardPlan

/-! ### Operands of a site -/

theorem map_getElem?_range {α : Type} (list : List α) :
    (List.range list.length).map (fun i => list[i]?) = list.map some :=
  List.ext_getElem (by simp) (by simp)

namespace Site

variable {site : Site} {id : Nat} {o : Operand}

/-- **An argument as an operand**: the node with the number is in the graph, and its result is a tensor. -/
def Feeds (site : Site) (id : Nat) (o : Operand) : Prop :=
  ∃ arg, site.graph.node? id = some arg ∧ arg.tensor.isSome = true ∧ o = .ofArgument arg

theorem Feeds.unique {o' : Operand} (h : site.Feeds id o) (h' : site.Feeds id o') : o = o' := by
  obtain ⟨arg, harg, -, rfl⟩ := h
  obtain ⟨arg', harg', -, rfl⟩ := h'
  cases harg.symm.trans harg'
  rfl

theorem argument_eq_ok_iff {index : Nat} :
    site.argument index = .ok o ↔ ∃ id, site.node.args[index]? = some id ∧ site.Feeds id o := by
  unfold argument Feeds
  split
  · rename_i hnone
    constructor
    · intro h
      obtain ⟨needed, -, h⟩ := bind_eq_ok_iff.mp h
      exact nomatch h
    · rintro ⟨id, hid, -⟩
      exact nomatch hnone.symm.trans hid
  · rename_i id hid
    split
    · rename_i hnone
      refine ⟨nofun, ?_⟩
      rintro ⟨id', hid', arg, harg, -⟩
      cases hid.symm.trans hid'
      exact nomatch hnone.symm.trans harg
    · rename_i arg harg
      split
      · rename_i huntyped
        refine ⟨nofun, ?_⟩
        rintro ⟨id', hid', arg', harg', htyped, -⟩
        cases hid.symm.trans hid'
        cases harg.symm.trans harg'
        rw [Option.isNone_iff_eq_none.mp huntyped] at htyped
        exact nomatch htyped
      · rename_i htyped
        constructor
        · intro h
          cases h
          exact ⟨id, hid, arg, harg, Option.isSome_iff_ne_none.mpr (by simpa using htyped), rfl⟩
        · rintro ⟨id', hid', arg', harg', -, rfl⟩
          cases hid.symm.trans hid'
          cases harg.symm.trans harg'
          rfl

theorem mapM_argument_eq_ok_iff {os : List Operand} :
    (List.range site.node.args.length).mapM site.argument = .ok os ↔
      List.Forall₂ site.Feeds site.node.args os := by
  have hargs : List.Forall₂ site.Feeds site.node.args os ↔
      List.Forall₂ (fun found o => ∃ id, found = some id ∧ site.Feeds id o)
        (site.node.args.map some) os := by
    rw [List.forall₂_map_left_iff]
    simp
  rw [mapM_eq_ok_iff, hargs, ← map_getElem?_range, List.forall₂_map_left_iff]
  simp only [argument_eq_ok_iff]

theorem result_eq_ok_iff :
    site.result = .ok o ↔ site.node.tensor.isSome = true ∧ o = .ofResult site.node := by
  unfold result
  cases site.node.tensor with
  | none => exact ⟨nofun, nofun⟩
  | some t => exact ⟨fun h => ⟨rfl, (Except.ok.inj h).symm⟩, fun h => by rw [h.2]; rfl⟩

theorem mapped_eq_ok_iff {operands : OperandMap} {name : String} :
    site.mapped operands name = .ok o ↔ operands.get? name = some o := by
  unfold mapped
  cases operands.get? name with
  | none => exact ⟨nofun, nofun⟩
  | some o' => exact ⟨fun h => congrArg some (Except.ok.inj h), fun h => by rw [Option.some.inj h]⟩

theorem parameter_eq_ok_iff {m : ModuleTree} {name : String} {t : TensorType} :
    site.parameter m name = .ok t ↔ m.parameters.get? name = some t := by
  unfold parameter
  cases m.parameters.get? name with
  | none => exact ⟨nofun, nofun⟩
  | some t' => exact ⟨fun h => congrArg some (Except.ok.inj h), fun h => by rw [Option.some.inj h]⟩

theorem calledModule_eq_ok_iff {path : String} (hop : site.node.operation = .module path)
    {m : ModuleTree} : site.calledModule = .ok m ↔
      (site.graph.owner.bind fun owner => owner.descendant? path) = some m := by
  rw [calledModule, hop]
  dsimp only
  cases site.graph.owner with
  | none => exact ⟨nofun, nofun⟩
  | some owner =>
    dsimp only [Option.bind_some]
    cases owner.descendant? path with
    | none => exact ⟨nofun, nofun⟩
    | some m' => exact ⟨fun h => congrArg some (Except.ok.inj h), fun h => by rw [Option.some.inj h]⟩

end Site

/-! ### Maps of operands -/

/-- Filling a map with operands that are looked up one after the other. -/
theorem foldlM_insert_eq_ok_iff {α : Type} {name : α → String} {f : α → Planned Operand} :
    ∀ {list : List α} {start operands : OperandMap},
      list.foldlM (fun operands a => do
        let operand ← f a
        return operands.insert (name a) operand) start = .ok operands ↔
      ∃ os, list.mapM f = .ok os ∧
        operands = ((list.map name).zip os).foldl (fun operands e => operands.insert e.1 e.2) start
  | [], start, operands => by
    constructor
    · intro h
      exact ⟨[], rfl, (Except.ok.inj h).symm⟩
    · rintro ⟨os, hos, rfl⟩
      cases hos
      rfl
  | a :: list, start, operands => by
    rw [List.foldlM_cons, List.mapM_cons, bind_eq_ok_iff]
    constructor
    · rintro ⟨next, hnext, h⟩
      obtain ⟨o, ho, hnext⟩ := bind_eq_ok_iff.mp hnext
      cases hnext
      obtain ⟨os, hos, rfl⟩ := foldlM_insert_eq_ok_iff.mp h
      exact ⟨o :: os, by rw [ho, hos]; rfl, rfl⟩
    · rintro ⟨os, hos, rfl⟩
      obtain ⟨o, ho, hos⟩ := bind_eq_ok_iff.mp hos
      obtain ⟨rest, hrest, hos⟩ := bind_eq_ok_iff.mp hos
      cases hos
      exact ⟨start.insert (name a) o, by rw [ho]; rfl, foldlM_insert_eq_ok_iff.mpr ⟨rest, hrest, rfl⟩⟩

theorem size_ofList {κ α : Type} [Key κ] [DecidableEq κ] {l : List (κ × α)}
    (h : (l.map Prod.fst).Nodup) : (SortedMap.ofList l).size = l.length := by
  have hperm : (SortedMap.ofList l).keys.Perm (l.map Prod.fst) :=
    (List.perm_ext_iff_of_nodup (SortedMap.nodup_keys _) h).mpr fun k => SortedMap.mem_keys_ofList
  have hlength := hperm.length_eq
  rwa [SortedMap.keys, List.length_map, List.length_map] at hlength

namespace Handler

variable {site : Site} {operands : OperandMap}

/-! ### Inputs and outputs of the graph -/

theorem inputOperands_eq_ok_iff : inputOperands site = .ok operands ↔
    ∃ o, site.result = .ok o ∧ operands = SortedMap.empty.insert "output" o := by
  rw [inputOperands, bind_eq_ok_iff]
  exact exists_congr fun o => and_congr_right fun _ => ⟨fun h => (Except.ok.inj h).symm, fun h => h ▸ rfl⟩

theorem outputOperands_eq_ok_iff : outputOperands site = .ok operands ↔
    ∃ inputs, List.Forall₂ site.Feeds site.node.args inputs ∧
      operands = .ofList (((List.range inputs.length).map returnedName).zip inputs) := by
  rw [outputOperands, foldlM_insert_eq_ok_iff]
  refine exists_congr fun inputs => ?_
  rw [Site.mapM_argument_eq_ok_iff]
  refine and_congr_right fun h => ?_
  rw [h.length_eq]
  rfl

theorem returnedName_injective : Function.Injective returnedName := by
  intro i j h
  have hname : ∀ i, returnedName i = "input_" ++ Nat.repr i := fun i => rfl
  rw [hname, hname] at h
  exact Nat.repr_injective ((String.append_right_inj _).mp h)

theorem filterMap_returned {inputs : List Operand} {operands : OperandMap}
    (h : operands = .ofList (((List.range inputs.length).map returnedName).zip inputs)) :
    (List.range operands.size).filterMap
      (fun index => operands.get? (returnedName index)) = inputs := by
  have hfst : (((List.range inputs.length).map returnedName).zip inputs).map Prod.fst =
      (List.range inputs.length).map returnedName := List.map_fst_zip (by simp)
  have hnodup : (((List.range inputs.length).map returnedName).zip inputs).map
      Prod.fst |>.Nodup := by
    rw [hfst]
    exact List.nodup_range.map returnedName_injective
  -- the names are distinct, so each operand is read back under its own
  have hget : ∀ index ∈ List.range inputs.length,
      operands.get? (returnedName index) = inputs[index]? := by
    intro index hindex
    have hlt := List.mem_range.mp hindex
    have hmem : (returnedName index, inputs[index]) ∈
        ((List.range inputs.length).map returnedName).zip inputs := by
      refine List.mem_iff_getElem?.mpr ⟨index, List.getElem?_zip_eq_some.mpr ⟨?_, ?_⟩⟩
      · rw [List.getElem?_map, List.getElem?_range hlt]
        rfl
      · exact List.getElem?_eq_getElem hlt
    rw [h, List.getElem?_eq_getElem hlt]
    exact SortedMap.get?_foldl_insert_of_mem (f := id) hnodup hmem
  have hsize : operands.size = inputs.length := by
    rw [h, size_ofList hnodup, List.length_zip]
    simp
  rw [hsize, List.filterMap_congr hget]
  have hall := congrArg (List.filterMap id) (map_getElem?_range inputs)
  simpa [List.filterMap_map] using hall

/-! ### Element-wise functions -/

/-- The arguments of a function that takes as many as it has names for. -/
theorem mapM_names_eq_ok_iff {inputs : List Operand}
    (hcount : site.node.args.length ≤ argumentNames.length) :
    ((argumentNames.take site.node.args.length).zipIdx.mapM fun e => site.argument e.2) =
        .ok inputs ↔
      List.Forall₂ site.Feeds site.node.args inputs := by
  have hsnd : (argumentNames.take site.node.args.length).zipIdx.map Prod.snd =
      List.range site.node.args.length := by
    rw [List.zipIdx_map_snd, List.length_take, Nat.min_eq_left hcount, List.range_eq_range']
  rw [← Site.mapM_argument_eq_ok_iff, ← hsnd, List.mapM_map]
  rfl

theorem elementwiseOperands_eq_ok_iff : elementwiseOperands site = .ok operands ↔
    (site.node.args.length = 1 ∨ site.node.args.length = 2) ∧ ∃ inputs o,
      List.Forall₂ site.Feeds site.node.args inputs ∧ site.result = .ok o ∧
        operands = (SortedMap.ofList
          ((argumentNames.take site.node.args.length).zip inputs)).insert "output" o := by
  have hnames : argumentNames.length = 2 := rfl
  unfold elementwiseOperands
  by_cases hcount : site.node.args.length = 0 ∨ argumentNames.length < site.node.args.length
  · simp only [if_pos hcount]
    refine ⟨fun h => ?_, fun h => ?_⟩
    · obtain ⟨_, hrefuse, -⟩ := bind_eq_ok_iff.mp h
      exact nomatch hrefuse
    · omega
  · simp only [if_neg hcount, bind_eq_ok_iff, foldlM_insert_eq_ok_iff]
    rw [not_or, Nat.not_lt] at hcount
    simp only [mapM_names_eq_ok_iff hcount.2, List.zipIdx_map_fst]
    constructor
    · rintro ⟨_, ⟨inputs, hinputs, rfl⟩, o, ho, h⟩
      exact ⟨by omega, inputs, o, hinputs, ho, (Except.ok.inj h).symm⟩
    · rintro ⟨-, inputs, o, hinputs, ho, rfl⟩
      exact ⟨_, ⟨inputs, hinputs, rfl⟩, o, ho, rfl⟩

theorem filterMap_argumentNames {inputs : List Operand} {o : Operand}
    (h : inputs.length = 1 ∨ inputs.length = 2) :
    argumentNames.filterMap ((SortedMap.ofList
      ((argumentNames.take inputs.length).zip inputs)).insert "output" o).get? = inputs := by
  rcases inputs with _ | ⟨a, _ | ⟨b, _ | ⟨c, inputs⟩⟩⟩
  · simp at h
  · simp [argumentNames, SortedMap.ofList, SortedMap.get?_insert]
  · simp [argumentNames, SortedMap.ofList, SortedMap.get?_insert]
  · simp at h

/-! ### Linear layers -/

theorem weightType_eq_ok_iff {m : ModuleTree} {w : TensorType} :
    weightType site m = .ok w ↔ m.parameters.get? "weight" = some w ∧ w.rank = 2 := by
  rw [weightType, bind_eq_ok_iff]
  simp only [Site.parameter_eq_ok_iff]
  constructor
  · rintro ⟨w', hw', h⟩
    split at h
    · exact nomatch h
    · rename_i hrank
      cases h
      exact ⟨hw', by simpa using hrank⟩
  · rintro ⟨hw, hrank⟩
    exact ⟨w, hw, by simp [hrank]; rfl⟩

theorem exists_transposed {w : TensorType} (h : w.rank = 2) : ∃ w', w.transposed 0 1 = .ok w' := by
  obtain ⟨a, b, hshape⟩ := List.length_eq_two.mp h
  rw [TensorType.transposed, TensorType.dimSize, TensorType.dimSize, hshape]
  exact ⟨_, rfl⟩

theorem logicalWeight_eq_ok_iff {m : ModuleTree} {o : Operand} :
    logicalWeight site m = .ok o ↔ ∃ w w', m.parameters.get? "weight" = some w ∧ w.rank = 2 ∧
      w.transposed 0 1 = .ok w' ∧ o = .ofParameter "weight" w' := by
  rw [logicalWeight, bind_eq_ok_iff]
  simp only [weightType_eq_ok_iff]
  constructor
  · rintro ⟨w, ⟨hw, hrank⟩, h⟩
    obtain ⟨w', hw', h⟩ := bind_eq_ok_iff.mp h
    exact ⟨w, w', hw, hrank, ofChecked_eq_ok_iff.mp hw', (Except.ok.inj h).symm⟩
  · rintro ⟨w, w', hw, hrank, hw', rfl⟩
    exact ⟨w, ⟨hw, hrank⟩, bind_eq_ok_iff.mpr ⟨w', ofChecked_eq_ok_iff.mpr hw', rfl⟩⟩

/-- The bias of a linear layer, if it has one. -/
def bias? (m : ModuleTree) : Option Operand :=
  (m.parameters.get? "bias").map (Operand.ofParameter "bias")

/-- The operands of a linear layer under their logical names. -/
def layerOperands (m : ModuleTree) (input weight o : Operand) : OperandMap :=
  let operands := (SortedMap.empty.insert "input" input).insert "other" weight
  (match m.parameters.get? "bias" with
    | none => operands
    | some bias => operands.insert "bias" (.ofParameter "bias" bias)).insert "output" o

theorem linearOperands_eq_ok_iff {m : ModuleTree} : linearOperands site m = .ok operands ↔
    ∃ input weight o, site.argument 0 = .ok input ∧ logicalWeight site m = .ok weight ∧
      site.result = .ok o ∧ operands = layerOperands m input weight o := by
  simp only [linearOperands, bind_eq_ok_iff]
  constructor
  · rintro ⟨input, hinput, weight, hweight, o, ho, h⟩
    exact ⟨input, weight, o, hinput, hweight, ho, (Except.ok.inj h).symm⟩
  · rintro ⟨input, weight, o, hinput, hweight, ho, rfl⟩
    exact ⟨input, hinput, weight, hweight, o, ho, rfl⟩

theorem get?_layerOperands (m : ModuleTree) (input weight o : Operand) :
    (layerOperands m input weight o).get? "input" = some input ∧
      (layerOperands m input weight o).get? "other" = some weight ∧
      (layerOperands m input weight o).get? "bias" = bias? m ∧
      (layerOperands m input weight o).get? "output" = some o := by
  unfold layerOperands bias?
  cases m.parameters.get? "bias" with
  | none => simp [SortedMap.get?_insert]
  | some bias => simp [SortedMap.get?_insert]

end Handler

end ShardPlan
