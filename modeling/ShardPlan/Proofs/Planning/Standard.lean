import ShardPlan.Proofs.Planning.Committed

/-! # Which nodes the standard registry handles

`Node.IsHandled` says, operation by operation, what a node and the graph around it must be like. It is what
the standard registry and its handlers ask for (`isHandled_of_generators`, `exists_offers_of_isHandled`). A
node that is handled has strategies about a known list of operands: apart from parameters they are the
result, unless the node is an output of the graph, and the arguments that its operation uses
(`Site.Lists`). -/

namespace ShardPlan

/-- The node is in the graph and its result is a tensor. -/
def Graph.HasTensor (graph : Graph) (id : Nat) : Prop :=
  ∃ n, graph.node? id = some n ∧ n.tensor.isSome = true

namespace Node

/-- **What a node must be like to be handled**, without prices. -/
def IsHandled (n : Node) (graph : Graph) : Prop :=
  match n.operation with
  | .input => n.tensor.isSome = true
  | .output => ∀ arg ∈ n.args, graph.HasTensor arg
  | .function name => name ∈ Registry.elementwiseNames ∧ (n.args.length = 1 ∨ n.args.length = 2) ∧
      (∀ arg ∈ n.args, graph.HasTensor arg) ∧ n.tensor.isSome = true
  | .module path => n.tensor.isSome = true ∧ (∃ first, n.args.head? = some first ∧ graph.HasTensor first) ∧
      ∃ owner m w, graph.owner = some owner ∧ owner.descendant? path = some m ∧ m.kind = "linear" ∧
        m.parameters.get? "weight" = some w ∧ w.rank = 2

/-- The arguments that the operation of a node uses: none for an input, the first for a module. -/
def used (n : Node) : List Nat :=
  match n.operation with
  | .input => []
  | .output | .function _ => n.args
  | .module _ => n.args.head?.toList

/-- **What a node must be like to be priced** beside: no argument is an output of the graph, and there are
none that the operation does not use. -/
structure IsPriced (n : Node) (graph : Graph) : Prop where
  not_output : ∀ arg ∈ n.args, ∀ p, graph.node? arg = some p → p.operation ≠ .output
  input : n.operation = .input → n.args = []
  module : ∀ path, n.operation = .module path → ∀ arg ∈ n.args, n.args.head? = some arg

theorem used_subset {n : Node} : ∀ id ∈ n.used, id ∈ n.args := by
  intro id hid
  unfold used at hid
  split at hid
  · exact absurd hid List.not_mem_nil
  · exact hid
  · exact hid
  · exact List.mem_of_mem_head? (Option.mem_toList.mp hid)

theorem isPriced_iff {n : Node} {graph : Graph} : n.IsPriced graph ↔
    (∀ arg ∈ n.args, ∀ p, graph.node? arg = some p → p.operation ≠ .output) ∧
      ∀ arg ∈ n.args, arg ∈ n.used := by
  constructor
  · rintro ⟨houtput, hinput, hmodule⟩
    refine ⟨houtput, fun arg harg => ?_⟩
    unfold used
    split
    · rename_i hop
      rwa [hinput hop] at harg
    · exact harg
    · exact harg
    · rename_i path hop
      exact Option.mem_toList.mpr (hmodule path hop arg harg)
  · rintro ⟨houtput, hused⟩
    refine ⟨houtput, fun hop => ?_, fun path hop arg harg => ?_⟩
    · refine List.eq_nil_iff_forall_not_mem.mpr fun arg harg => ?_
      have harg := hused arg harg
      rw [used, hop] at harg
      exact absurd harg List.not_mem_nil
    · have harg := hused arg harg
      rw [used, hop] at harg
      exact Option.mem_toList.mp harg

end Node

/-! ### Operands -/

namespace Site

variable {site : Site}

/-- **The operands of a handled node**: what it provides, with a result unless it is an output of the graph,
and with the arguments that it uses. -/
structure Lists (site : Site) (operands : List Operand) : Prop where
  provides : ∀ o ∈ operands, site.Provides o
  exists_result_iff : (∃ o ∈ operands, o.role = .result) ↔ site.node.operation ≠ .output
  exists_argument_iff : ∀ {id}, (∃ o ∈ operands, o.isArgumentFrom id = true) ↔ id ∈ site.node.used

theorem exists_feeds_iff {ids : List Nat} :
    (∃ os, List.Forall₂ site.Feeds ids os) ↔ ∀ id ∈ ids, site.graph.HasTensor id := by
  induction ids with
  | nil => simp
  | cons id ids ih =>
    rw [List.forall_mem_cons, ← ih]
    constructor
    · rintro ⟨_, hos⟩
      obtain ⟨o, rest, ⟨arg, harg, htyped, -⟩, hrest, rfl⟩ := List.forall₂_cons_left_iff.mp hos
      exact ⟨⟨arg, harg, htyped⟩, rest, hrest⟩
    · rintro ⟨⟨arg, harg, htyped⟩, os, hos⟩
      exact ⟨.ofArgument arg :: os, .cons ⟨arg, harg, htyped, rfl⟩ hos⟩

/-- Operands are listed by the arguments that feed them, followed by operands that no node feeds. -/
theorem Lists.of_append {inputs others : List Operand}
    (hinputs : List.Forall₂ site.Feeds site.node.used inputs)
    (hused : ∀ id ∈ site.node.used, id ∈ site.node.args)
    (hothers : ∀ o ∈ others, site.Provides o ∧ o.role ≠ .argument)
    (hresult : (∃ o ∈ others, o.role = .result) ↔ site.node.operation ≠ .output) :
    site.Lists (inputs ++ others) := by
  obtain ⟨hright, hleft⟩ := mem_of_forall₂ hinputs
  refine ⟨fun o ho => ?_, ?_, fun {id} => ?_⟩
  · rcases List.mem_append.mp ho with ho | ho
    · obtain ⟨id, hid, hfeeds⟩ := hright o ho
      exact .inr (.inr ⟨id, hused id hid, hfeeds⟩)
    · exact (hothers o ho).1
  · rw [← hresult]
    refine ⟨fun ⟨o, ho, hrole⟩ => ?_, fun ⟨o, ho, hrole⟩ => ⟨o, List.mem_append_right _ ho, hrole⟩⟩
    rcases List.mem_append.mp ho with ho | ho
    · obtain ⟨id, -, hfeeds⟩ := hright o ho
      exact nomatch hrole.symm.trans hfeeds.role
    · exact ⟨o, ho, hrole⟩
  · constructor
    · rintro ⟨o, ho, hfrom⟩
      rcases List.mem_append.mp ho with ho | ho
      · obtain ⟨id', hid', hfeeds⟩ := hright o ho
        rwa [hfeeds.isArgumentFrom_iff.mp hfrom]
      · exact absurd (role_of_isArgumentFrom hfrom) (hothers o ho).2
    · intro hid
      obtain ⟨o, ho, hfeeds⟩ := hleft id hid
      exact ⟨o, List.mem_append_left _ ho, hfeeds.isArgumentFrom_iff.mpr rfl⟩

theorem Lists.of_result {inputs : List Operand} (parameters : List Operand)
    (hinputs : List.Forall₂ site.Feeds site.node.used inputs)
    (hparameters : ∀ o ∈ parameters, o.role = .parameter) (hop : site.node.operation ≠ .output)
    (htyped : site.node.tensor.isSome = true) :
    site.Lists (inputs ++ (parameters ++ [.ofResult site.node])) := by
  refine .of_append hinputs Node.used_subset (fun o ho => ?_)
    (iff_of_true ⟨.ofResult site.node, List.mem_append_right _ (by simp), rfl⟩ hop)
  rcases List.mem_append.mp ho with ho | ho
  · exact ⟨.inl (hparameters o ho), fun h => nomatch (hparameters o ho).symm.trans h⟩
  · rw [List.mem_singleton.mp ho]
    exact ⟨.inr (.inl ⟨htyped, rfl⟩), nofun⟩

end Site

/-! ### The standard registry -/

namespace Registry

variable {site : Site} {handler : Handler}

theorem get?_standard_functions {name : String} {factory : Factory} :
    standard.functions.get? name = some factory ↔
      name ∈ elementwiseNames ∧ factory = Handler.elementwise := by
  have hfold : ∀ (names : List String) (r : Registry),
      (names.foldl (fun r name => r.withFunction name Handler.elementwise) r).functions.get? name =
        if name ∈ names then some Handler.elementwise else r.functions.get? name := by
    intro names
    induction names with
    | nil => simp
    | cons name' names ih =>
      intro r
      rw [List.foldl_cons, ih, withFunction, SortedMap.get?_insert]
      by_cases hname : name ∈ names
      · simp [hname]
      · by_cases hname' : name' = name
        · simp [hname, hname']
        · simp [hname, hname', Ne.symm hname']
  have hget : standard.functions.get? name =
      if name ∈ elementwiseNames then some Handler.elementwise else none := hfold elementwiseNames empty
  rw [hget]
  by_cases hname : name ∈ elementwiseNames
  · simp [hname, eq_comm]
  · simp [hname]

theorem get?_standard_modules {kind : String} {factory : Factory} :
    standard.modules.get? kind = some factory ↔ kind = "linear" ∧ factory = Handler.linear := by
  have hfold : ∀ (names : List String) (r : Registry),
      (names.foldl (fun r name => r.withFunction name Handler.elementwise) r).modules = r.modules := by
    intro names
    induction names with
    | nil => exact fun r => rfl
    | cons name names ih => exact fun r => ih _
  rw [standard, withModule, hfold, SortedMap.get?_insert]
  by_cases hkind : "linear" = kind
  · simp [hkind, eq_comm]
  · simp [hkind, Ne.symm hkind, empty, SortedMap.get?_empty]

theorem standard_handler_function {name : String} (hop : site.node.operation = .function name) :
    standard.handler site = .ok handler ↔
      name ∈ elementwiseNames ∧ Handler.elementwise site = .ok handler := by
  rw [Registry.handler, hop]
  dsimp only
  cases hget : standard.functions.get? name with
  | none =>
    refine ⟨nofun, fun ⟨hname, _⟩ => ?_⟩
    exact nomatch hget.symm.trans (get?_standard_functions.mpr ⟨hname, rfl⟩)
  | some factory =>
    obtain ⟨hname, rfl⟩ := get?_standard_functions.mp hget
    exact ⟨fun h => ⟨hname, h⟩, fun h => h.2⟩

theorem standard_handler_module {path : String} (hop : site.node.operation = .module path) :
    standard.handler site = .ok handler ↔ ∃ owner m, site.graph.owner = some owner ∧
      owner.descendant? path = some m ∧ m.kind = "linear" ∧ handler = Handler.layer site m := by
  rw [Registry.handler, hop]
  dsimp only
  cases hfound : site.graph.owner.bind fun owner => owner.descendant? path with
  | none =>
    refine ⟨nofun, fun ⟨owner, m, howner, hm, _⟩ => ?_⟩
    exact nomatch hfound.symm.trans (Option.bind_eq_some_iff.mpr ⟨owner, howner, hm⟩)
  | some m =>
    obtain ⟨owner, howner, hm⟩ := Option.bind_eq_some_iff.mp hfound
    have hunique : ∀ {owner' m'}, site.graph.owner = some owner' →
        owner'.descendant? path = some m' → m' = m := fun howner' hm' => by
      cases howner.symm.trans howner'
      cases hm.symm.trans hm'
      rfl
    dsimp only
    cases hget : standard.modules.get? m.kind with
    | none =>
      refine ⟨nofun, fun ⟨owner', m', howner', hm', hkind, _⟩ => ?_⟩
      cases hunique howner' hm'
      exact nomatch hget.symm.trans (get?_standard_modules.mpr ⟨hkind, rfl⟩)
    | some factory =>
      obtain ⟨hkind, rfl⟩ := get?_standard_modules.mp hget
      have hcalled := (Site.calledModule_eq_ok_iff hop).mpr hfound
      refine Handler.linear_eq_ok_iff.trans ⟨?_, ?_⟩
      · rintro ⟨m', hm', rfl⟩
        cases hcalled.symm.trans hm'
        exact ⟨owner, m, howner, hm, hkind, rfl⟩
      · rintro ⟨owner', m', howner', hm', -, rfl⟩
        cases hunique howner' hm'
        exact ⟨m, hcalled, rfl⟩

end Registry

/-! ### Handled nodes -/

section Handled

variable {site : Site} {handler : Handler}

/-- **What a handler of the standard registry needs** is that the node is like `IsHandled` says. -/
theorem isHandled_of_generators (h : Registry.standard.handler site = .ok handler)
    {generators : List Generator} (hgen : handler.generators = .ok generators) :
    site.node.IsHandled site.graph := by
  unfold Node.IsHandled
  split
  · rename_i hop
    rw [Registry.handler, hop] at h
    obtain ⟨o, ho, -⟩ := (Handler.input_generators_iff h).mp hgen
    exact (Site.result_eq_ok_iff.mp ho).1
  · rename_i hop
    rw [Registry.handler, hop] at h
    obtain ⟨inputs, hinputs, -⟩ := (Handler.output_generators_iff h).mp hgen
    exact Site.exists_feeds_iff.mp ⟨inputs, hinputs⟩
  · rename_i name hop
    obtain ⟨hname, h⟩ := (Registry.standard_handler_function hop).mp h
    obtain ⟨hcount, inputs, o, hinputs, ho, -⟩ := (Handler.elementwise_generators_iff h).mp hgen
    exact ⟨hname, hcount, Site.exists_feeds_iff.mp ⟨inputs, hinputs⟩, (Site.result_eq_ok_iff.mp ho).1⟩
  · rename_i path hop
    obtain ⟨owner, m, howner, hm, hkind, rfl⟩ := (Registry.standard_handler_module hop).mp h
    obtain ⟨i, weight, o, hi, hweight, ho, -⟩ := Handler.layer_generators_iff.mp hgen
    obtain ⟨first, hfirst, arg, harg, htyped, -⟩ := Site.argument_eq_ok_iff.mp hi
    obtain ⟨w, w', hw, hrank, -, -⟩ := Handler.logicalWeight_eq_ok_iff.mp hweight
    rw [← List.head?_eq_getElem?] at hfirst
    exact ⟨(Site.result_eq_ok_iff.mp ho).1, ⟨first, hfirst, arg, harg, htyped⟩,
      owner, m, w, howner, hm, hkind, hw, hrank⟩

/-- **A node that is like `IsHandled` says** has a handler, which offers strategies for its operands. -/
theorem exists_offers_of_isHandled (site : Site) (h : site.node.IsHandled site.graph) :
    ∃ handler operands, Registry.standard.handler site = .ok handler ∧ handler.Offers operands ∧
      site.Lists operands := by
  cases hop : site.node.operation with
  | input =>
    have hused : site.node.used = [] := by rw [Node.used, hop]
    rw [Node.IsHandled, hop] at h
    obtain ⟨handler, hhandler⟩ : ∃ handler, Handler.input site = .ok handler := ⟨_, rfl⟩
    refine ⟨handler, _, ?_, Handler.input_offers hhandler h, ?_⟩
    · rw [Registry.handler, hop]
      exact hhandler
    · exact .of_result [] (by rw [hused]; exact .nil) nofun (by simp [hop]) h
  | output =>
    have hused : site.node.used = site.node.args := by rw [Node.used, hop]
    rw [Node.IsHandled, hop] at h
    obtain ⟨inputs, hinputs⟩ := Site.exists_feeds_iff.mpr h
    obtain ⟨handler, hhandler⟩ : ∃ handler, Handler.output site = .ok handler := ⟨_, rfl⟩
    refine ⟨handler, inputs, ?_, Handler.output_offers hhandler hinputs, ?_⟩
    · rw [Registry.handler, hop]
      exact hhandler
    · rw [← List.append_nil inputs]
      exact .of_append (by rwa [hused]) Node.used_subset nofun (by simp [hop])
  | function name =>
    have hused : site.node.used = site.node.args := by rw [Node.used, hop]
    rw [Node.IsHandled, hop] at h
    obtain ⟨hname, hcount, hargs, htyped⟩ := h
    obtain ⟨inputs, hinputs⟩ := Site.exists_feeds_iff.mpr hargs
    obtain ⟨handler, hhandler⟩ : ∃ handler, Handler.elementwise site = .ok handler := ⟨_, rfl⟩
    refine ⟨handler, _, (Registry.standard_handler_function hop).mpr ⟨hname, hhandler⟩,
      Handler.elementwise_offers hhandler hcount hinputs htyped, ?_⟩
    exact .of_result [] (by rwa [hused]) nofun (by simp [hop]) htyped
  | module path =>
    rw [Node.IsHandled, hop] at h
    obtain ⟨htyped, ⟨first, hfirst, arg, harg, hargtyped⟩, owner, m, w, howner, hm, hkind, hw, hrank⟩ := h
    have hused : site.node.used = [first] := by
      rw [Node.used, hop]
      exact congrArg Option.toList hfirst
    have hfeeds : site.Feeds first (.ofArgument arg) := ⟨arg, harg, hargtyped, rfl⟩
    refine ⟨Handler.layer site m, _,
      (Registry.standard_handler_module hop).mpr ⟨owner, m, howner, hm, hkind, rfl⟩,
      Handler.layer_offers (List.head?_eq_getElem? ▸ hfirst) hfeeds hw hrank htyped, ?_⟩
    refine .of_result (.ofParameter "weight" w :: (Handler.bias? m).toList)
      (by rw [hused]; exact .cons hfeeds .nil) (fun o ho => ?_) (by simp [hop]) htyped
    rcases List.mem_cons.mp ho with rfl | ho
    · rfl
    · obtain ⟨bias, -, rfl⟩ := Option.map_eq_some_iff.mp (Option.mem_toList.mp ho)
      rfl

end Handled

end ShardPlan
