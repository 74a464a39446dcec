import ShardPlan.Proofs.Planning.Consistency
import ShardPlan.Proofs.Planning.Handlers

/-! # What is committed

A strategy passes the filter of a registration exactly if every layout in it fits the tensor of its
operand (`Site.misfit?_eq_none_iff`). With the handlers of this library its operands are the result of
the node, its arguments and parameters (`Handler.provides_of_candidates`). Both together describe the
strategies that a consistent plan has published (`Planner.Consistent.admits`). -/

namespace ShardPlan

/-! ### Strategies that fit -/

namespace Site

variable {site : Site} {s : Strategy}

/-- The operands fit that are tensors. -/
def AllFit (site : Site) (layouts : List (Operand × Layout)) : Prop :=
  ∀ e ∈ layouts, ∀ t, e.1.tensor = some t → e.2.violation? t site.mesh = .ok none

theorem findMisfit_eq_none_iff : ∀ {layouts : List (Operand × Layout)},
    site.findMisfit layouts = .ok none ↔ site.AllFit layouts
  | [] => by simp [findMisfit, AllFit]
  | (o, l) :: layouts => by
    rw [AllFit, List.forall_mem_cons, findMisfit]
    cases ho : o.tensor with
    | none => simp [findMisfit_eq_none_iff, AllFit]
    | some t =>
      simp only [bind_eq_ok_iff, Option.some.injEq, forall_eq']
      constructor
      · rintro ⟨violation, hviolation, h⟩
        cases violation with
        | some v => cases h
        | none => exact ⟨hviolation, findMisfit_eq_none_iff.mp h⟩
      · rintro ⟨hfit, hrest⟩
        exact ⟨none, hfit, findMisfit_eq_none_iff.mpr hrest⟩

/-- **The refusal of the first operand that does not fit**, in the order of the operands. Those that are no
tensors are passed over. -/
def RefusesFirst (site : Site) (layouts : List (Operand × Layout)) (refusal : Refusal) : Prop :=
  ∃ past o l rest t v, layouts = past ++ (o, l) :: rest ∧ site.AllFit past ∧ o.tensor = some t ∧
    l.violation? t site.mesh = .ok (some v) ∧
      refusal = .misfit site.node.label o.name l t.shape v

theorem RefusesFirst.cons {e : Operand × Layout} {layouts : List (Operand × Layout)} {refusal : Refusal}
    (h : site.RefusesFirst layouts refusal)
    (he : ∀ t, e.1.tensor = some t → e.2.violation? t site.mesh = .ok none) :
    site.RefusesFirst (e :: layouts) refusal := by
  obtain ⟨past, o, l, rest, t, v, rfl, hpast, hrefused⟩ := h
  exact ⟨e :: past, o, l, rest, t, v, rfl, List.forall_mem_cons.mpr ⟨he, hpast⟩, hrefused⟩

theorem refusesFirst_of_findMisfit : ∀ {layouts : List (Operand × Layout)} {refusal : Refusal},
    site.findMisfit layouts = .ok (some refusal) → site.RefusesFirst layouts refusal
  | [], _, h => nomatch h
  | (o, l) :: layouts, refusal, h => by
    rw [findMisfit] at h
    cases ho : o.tensor with
    | none =>
      rw [ho] at h
      exact (refusesFirst_of_findMisfit h).cons fun t ht => nomatch ho.symm.trans ht
    | some t =>
      rw [ho] at h
      obtain ⟨violation, hviolation, h⟩ := bind_eq_ok_iff.mp h
      cases violation with
      | none =>
        refine (refusesFirst_of_findMisfit h).cons fun t' ht' => ?_
        cases ho.symm.trans ht'
        exact hviolation
      | some v =>
        cases h
        exact ⟨[], o, l, layouts, t, v, rfl, nofun, ho, hviolation, rfl⟩

theorem findMisfit_eq_some {layouts : List (Operand × Layout)} {refusal : Refusal}
    (h : site.findMisfit layouts = .ok (some refusal)) : ∃ e ∈ layouts, ∃ t violation,
      e.1.tensor = some t ∧ e.2.violation? t site.mesh = .ok (some violation) ∧
        refusal = .misfit site.node.label e.1.name e.2 t.shape violation := by
  obtain ⟨past, o, l, rest, t, v, rfl, -, ht, hviolation, hrefusal⟩ := refusesFirst_of_findMisfit h
  exact ⟨(o, l), by simp, t, v, ht, hviolation, hrefusal⟩

theorem misfit?_eq_none_iff : site.misfit? s = .ok none ↔ site.AllFit s.layouts :=
  findMisfit_eq_none_iff

theorem misfit?_of_isReplicated (h : s.IsReplicated) : site.misfit? s = .ok none := by
  refine misfit?_eq_none_iff.mpr fun e he t _ => ?_
  rw [h e he]
  rfl

/-! ### Operands of built-in handlers -/

/-- **What a node provides as an operand**: a parameter, its result, or one of its arguments. -/
def Provides (site : Site) (o : Operand) : Prop :=
  o.role = .parameter ∨ (site.node.tensor.isSome = true ∧ o = .ofResult site.node) ∨
    ∃ id ∈ site.node.args, site.Feeds id o

theorem Feeds.role {id : Nat} {o : Operand} (h : site.Feeds id o) : o.role = .argument := by
  obtain ⟨arg, -, -, rfl⟩ := h
  rfl

theorem Feeds.isArgumentFrom_iff {id id' : Nat} {o : Operand} (h : site.Feeds id o) :
    o.isArgumentFrom id' = true ↔ id' = id := by
  obtain ⟨arg, harg, -, rfl⟩ := h
  have hid := Graph.id_of_node? harg
  simp [Operand.isArgumentFrom, Operand.ofArgument, hid, eq_comm]

theorem Provides.eq_ofResult {o : Operand} (h : site.Provides o) (hrole : o.role = .result) :
    site.node.tensor.isSome = true ∧ o = .ofResult site.node := by
  rcases h with h | h | ⟨id, -, hfeeds⟩
  · exact nomatch hrole.symm.trans h
  · exact h
  · exact nomatch hrole.symm.trans hfeeds.role

theorem role_of_isArgumentFrom {o : Operand} {id : Nat} (h : o.isArgumentFrom id = true) :
    o.role = .argument := by
  simp only [Operand.isArgumentFrom, Bool.and_eq_true, decide_eq_true_eq] at h
  exact h.1

theorem Provides.feeds {o : Operand} {id : Nat} (h : site.Provides o)
    (hfrom : o.isArgumentFrom id = true) : site.Feeds id o := by
  have hrole := role_of_isArgumentFrom hfrom
  rcases h with h | ⟨-, rfl⟩ | ⟨id', -, hfeeds⟩
  · exact nomatch hrole.symm.trans h
  · exact nomatch hrole
  · rwa [hfeeds.isArgumentFrom_iff.mp hfrom]

theorem provides_of_forall₂ {inputs : List Operand}
    (h : List.Forall₂ site.Feeds site.node.args inputs) : ∀ o ∈ inputs, site.Provides o :=
  fun o ho => .inr (.inr ((mem_of_forall₂ h).1 o ho))

end Site

namespace Handler

variable {site : Site} {handler : Handler}

/-- The handlers of this library. -/
def builtIn : List Factory := [input, output, elementwise, linear]

theorem exists_generators {strategies : List Strategy} (h : handler.candidates = .ok strategies) :
    ∃ generators, handler.generators = .ok generators := by
  obtain ⟨generators, hgenerators, -⟩ := bind_eq_ok_iff.mp h
  exact ⟨generators, hgenerators⟩

/-- **What a handler of this library finds** if it has generators: the operands that it is about. -/
inductive Finds (site : Site) (handler : Handler) : Prop
  | input (h : input site = .ok handler) (htyped : site.node.tensor.isSome = true)
  | output (h : output site = .ok handler) {inputs : List Operand}
      (hinputs : List.Forall₂ site.Feeds site.node.args inputs)
  | elementwise (h : elementwise site = .ok handler)
      (hcount : site.node.args.length = 1 ∨ site.node.args.length = 2) {inputs : List Operand}
      (hinputs : List.Forall₂ site.Feeds site.node.args inputs)
      (htyped : site.node.tensor.isSome = true)
  | layer {m : ModuleTree} (h : handler = layer site m) (hm : site.calledModule = .ok m)
      {first : Nat} {i : Operand} (hfirst : site.node.args[0]? = some first)
      (hfeeds : site.Feeds first i) {w : TensorType} (hw : m.parameters.get? "weight" = some w)
      (hrank : w.rank = 2) (htyped : site.node.tensor.isSome = true)

theorem finds_of_generators {factory : Factory} (hfactory : factory ∈ builtIn)
    (h : factory site = .ok handler) {generators : List Generator}
    (hgen : handler.generators = .ok generators) : Finds site handler := by
  have htyped : ∀ {o}, site.result = .ok o → site.node.tensor.isSome = true :=
    fun ho => (Site.result_eq_ok_iff.mp ho).1
  simp only [builtIn, List.mem_cons, List.not_mem_nil, or_false] at hfactory
  rcases hfactory with rfl | rfl | rfl | rfl
  · obtain ⟨o, ho, -⟩ := (input_generators_iff h).mp hgen
    exact .input h (htyped ho)
  · obtain ⟨inputs, hinputs, -⟩ := (output_generators_iff h).mp hgen
    exact .output h hinputs
  · obtain ⟨hcount, inputs, o, hinputs, ho, -⟩ := (elementwise_generators_iff h).mp hgen
    exact .elementwise h hcount hinputs (htyped ho)
  · obtain ⟨m, hm, rfl⟩ := linear_eq_ok_iff.mp h
    obtain ⟨i, weight, o, hi, hweight, ho, -⟩ := layer_generators_iff.mp hgen
    obtain ⟨first, hfirst, hfeeds⟩ := Site.argument_eq_ok_iff.mp hi
    obtain ⟨w, w', hw, hrank, -, -⟩ := logicalWeight_eq_ok_iff.mp hweight
    exact .layer rfl hm hfirst hfeeds hw hrank (htyped ho)

theorem Finds.exists_offers (h : Finds site handler) :
    ∃ operands, handler.Offers operands ∧ ∀ o ∈ operands, site.Provides o := by
  have hresult : site.node.tensor.isSome = true →
      ∀ o ∈ [Operand.ofResult site.node], site.Provides o :=
    fun htyped o ho => .inr (.inl ⟨htyped, List.mem_singleton.mp ho⟩)
  cases h with
  | input h htyped => exact ⟨_, input_offers h htyped, hresult htyped⟩
  | @output h inputs hinputs =>
    exact ⟨inputs, output_offers h hinputs, Site.provides_of_forall₂ hinputs⟩
  | elementwise h hcount hinputs htyped =>
    refine ⟨_, elementwise_offers h hcount hinputs htyped, fun o ho => ?_⟩
    rcases List.mem_append.mp ho with ho | ho
    · exact Site.provides_of_forall₂ hinputs o ho
    · exact hresult htyped o ho
  | layer h hm hfirst hfeeds hw hrank htyped =>
    subst h
    refine ⟨_, layer_offers hfirst hfeeds hw hrank htyped, fun o ho => ?_⟩
    rcases List.mem_append.mp ho with ho | ho
    · rcases List.mem_append.mp ho with ho | ho
      · rcases List.mem_cons.mp ho with rfl | ho
        · exact .inr (.inr ⟨_, List.mem_of_getElem? hfirst, hfeeds⟩)
        · rw [List.mem_singleton.mp ho]
          exact .inl rfl
      · obtain ⟨bias, -, rfl⟩ := Option.map_eq_some_iff.mp (Option.mem_toList.mp ho)
        exact .inl rfl
    · exact hresult htyped o ho

/-- **The candidates of a built-in handler** are about what the node provides. -/
theorem provides_of_candidates {factory : Factory} (hfactory : factory ∈ builtIn)
    (h : factory site = .ok handler) {strategies : List Strategy}
    (hcandidates : handler.candidates = .ok strategies) :
    ∀ s ∈ strategies, ∀ e ∈ s.layouts, site.Provides e.1 := by
  intro s hs e he
  obtain ⟨generators, hgen⟩ := exists_generators hcandidates
  obtain ⟨operands, hoffers, hprovides⟩ := (finds_of_generators hfactory h hgen).exists_offers
  refine hprovides e.1 ?_
  rw [← hoffers.operands_eq hcandidates s hs]
  exact List.mem_map_of_mem he

end Handler

namespace Registry

/-- **A registry of built-in handlers**, under whatever names. -/
structure IsBuiltIn (r : Registry) : Prop where
  functions : ∀ factory ∈ r.functions.values, factory ∈ Handler.builtIn
  modules : ∀ factory ∈ r.modules.values, factory ∈ Handler.builtIn

theorem IsBuiltIn.exists_factory {r : Registry} (hr : r.IsBuiltIn) {site : Site} {handler : Handler}
    (h : r.handler site = .ok handler) :
    ∃ factory ∈ Handler.builtIn, factory site = .ok handler := by
  unfold Registry.handler at h
  split at h
  · exact ⟨Handler.input, by simp [Handler.builtIn], h⟩
  · exact ⟨Handler.output, by simp [Handler.builtIn], h⟩
  · split at h
    · exact nomatch h
    · rename_i factory hfactory
      exact ⟨factory, hr.functions factory (SortedMap.mem_values.mpr ⟨_, hfactory⟩), h⟩
  · split at h
    · exact nomatch h
    · split at h
      · exact nomatch h
      · rename_i factory hfactory
        exact ⟨factory, hr.modules factory (SortedMap.mem_values.mpr ⟨_, hfactory⟩), h⟩

theorem mem_values_insert {κ α : Type} [Key κ] {m : SortedMap κ α} {k : κ} {v v' : α}
    (h : v' ∈ (m.insert k v).values) : v' = v ∨ v' ∈ m.values := by
  obtain ⟨e, he, rfl⟩ := List.mem_map.mp h
  rcases SortedMap.mem_put he with rfl | he
  · exact .inl rfl
  · exact .inr (List.mem_map_of_mem he)

theorem IsBuiltIn.withFunction {r : Registry} (hr : r.IsBuiltIn) {name : String} {factory : Factory}
    (hfactory : factory ∈ Handler.builtIn) : (r.withFunction name factory).IsBuiltIn := by
  refine ⟨fun f hf => ?_, hr.modules⟩
  rcases mem_values_insert hf with rfl | hf
  · exact hfactory
  · exact hr.functions f hf

theorem IsBuiltIn.withModule {r : Registry} (hr : r.IsBuiltIn) {kind : String} {factory : Factory}
    (hfactory : factory ∈ Handler.builtIn) : (r.withModule kind factory).IsBuiltIn := by
  refine ⟨hr.functions, fun f hf => ?_⟩
  rcases mem_values_insert hf with rfl | hf
  · exact hfactory
  · exact hr.modules f hf

theorem standard_isBuiltIn : standard.IsBuiltIn := by
  have hfold : ∀ (names : List String) {r : Registry}, r.IsBuiltIn →
      (names.foldl (fun r name => r.withFunction name Handler.elementwise) r).IsBuiltIn := by
    intro names
    induction names with
    | nil => exact id
    | cons name names ih => exact fun hr => ih (hr.withFunction (by simp [Handler.builtIn]))
  have hempty : empty.IsBuiltIn :=
    ⟨fun f hf => absurd hf List.not_mem_nil, fun f hf => absurd hf List.not_mem_nil⟩
  exact (hfold elementwiseNames hempty).withModule (by simp [Handler.builtIn])

end Registry

/-! ### Committed strategies -/

section Running

variable {m : Type → Type} [Monad m] [MonadExceptOf (Failure Refusal) m] [Runs m]
  {session : Session m} {site : Site} {published : Published}

theorem PricedAs.layouts_eq {pricing : Bool} {s priced : Strategy}
    (h : PricedAs session site published pricing s priced) : priced.layouts = s.layouts := by
  rw [h.eq_with_resharding]

/-- **A strategy that was priced** takes something from every argument of the node, and each strategy of an
argument has a result. -/
theorem exists_result_of_register [LawfulMonad m] {handler : Handler} {r : Registration}
    (h : CanEnd (register session site published handler true) (.ok r)) {s : Strategy}
    (hs : s ∈ r.candidates.strategies) {id : Nat} (hid : id ∈ site.node.args) :
    s.argumentsFrom id ≠ [] ∧ ∃ producers, published.get? id = some producers ∧
      ∀ c ∈ producers.strategies, ∃ result, c.result? = some result := by
  obtain ⟨-, strategies, -, hjudged⟩ := register_ok h
  obtain ⟨s₀, -, -, hpriced⟩ := hjudged.exists_candidate s hs
  obtain ⟨-, hcosts, -⟩ := reshard_ok hpriced
  obtain ⟨costs, hend, -⟩ := hcosts id (List.mem_eraseDups.mpr hid)
  obtain ⟨hne, producers, hproducers, hall⟩ := reshardingCosts_ok hend
  refine ⟨?_, producers, hproducers, fun c hc => ?_⟩
  · rwa [Strategy.argumentsFrom, hpriced.layouts_eq]
  · obtain ⟨cost, -, result, -, hresult, -⟩ := (mem_of_forall₂ hall).2 c hc
    exact ⟨result, hresult⟩

/-- **A strategy of a node that can be used**: its layouts fit, and it is about what the node provides. -/
structure Site.Admits (site : Site) (s : Strategy) : Prop where
  allFit : site.AllFit s.layouts
  provides : ∀ e ∈ s.layouts, site.Provides e.1

theorem Site.Admits.argument {s : Strategy} (h : site.Admits s) {id : Nat} {e : Operand × Layout}
    (he : e ∈ s.argumentsFrom id) : ∃ arg t, site.graph.node? id = some arg ∧
      arg.tensor = some t ∧ e.1.tensor = some t ∧ e.2.violation? t site.mesh = .ok none := by
  obtain ⟨hmem, hfrom⟩ := List.mem_filter.mp he
  obtain ⟨arg, harg, htyped, heq⟩ := (h.provides e hmem).feeds hfrom
  obtain ⟨t, ht⟩ := Option.isSome_iff_exists.mp htyped
  have het : e.1.tensor = some t := by rw [heq]; exact ht
  exact ⟨arg, t, harg, ht, het, h.allFit e hmem t het⟩

theorem Site.Admits.result {s : Strategy} (h : site.Admits s) {e : Operand × Layout}
    (he : s.result? = some e) : ∃ t, site.node.tensor = some t ∧ e.1.tensor = some t ∧
      e.2.violation? t site.mesh = .ok none := by
  have hmem := List.mem_of_find?_eq_some he
  have hrole : e.1.role = .result := by simpa using List.find?_some he
  obtain ⟨htyped, heq⟩ := (h.provides e hmem).eq_ofResult hrole
  obtain ⟨t, ht⟩ := Option.isSome_iff_exists.mp htyped
  have het : e.1.tensor = some t := by rw [heq]; exact ht
  exact ⟨t, ht, het, h.allFit e hmem t het⟩

/-- **What a registration commits** can be used, with a handler of this library. -/
theorem admits_of_register [LawfulMonad m] {factory : Factory} (hfactory : factory ∈ Handler.builtIn)
    {handler : Handler} (hhandler : factory site = .ok handler) {pricing : Bool} {r : Registration}
    (h : CanEnd (register session site published handler pricing) (.ok r)) :
    ∀ s ∈ r.candidates.strategies, site.Admits s := by
  obtain ⟨-, strategies, hcandidates, hjudged⟩ := register_ok h
  intro s hs
  obtain ⟨s₀, hs₀, hfit, hpriced⟩ := hjudged.exists_candidate s hs
  have hlayouts := hpriced.layouts_eq
  constructor
  · rw [hlayouts]
    exact Site.misfit?_eq_none_iff.mp hfit
  · rw [hlayouts]
    exact Handler.provides_of_candidates hfactory hhandler hcandidates s₀ hs₀

/-- **What a consistent plan has published** can be used, with handlers of this library. -/
theorem Planner.Consistent.admits [LawfulMonad m] {planner : Planner} {graph : Graph} {done : List Nat}
    {plan : Plan} (hregistry : planner.registry.IsBuiltIn)
    (h : planner.Consistent session graph done plan) {id : Nat} {candidates : Candidates}
    (hget : plan.published.get? id = some candidates) :
    ∃ n, graph.node? id = some n ∧
      ∀ s ∈ candidates.strategies, (Site.mk graph n planner.mesh).Admits s := by
  obtain ⟨r, hr, hget'⟩ := h.registered id (h.mem_of_get? hget)
  cases hget.symm.trans hget'
  obtain ⟨n, handler, hn, hhandler, hr⟩ := registerAt_ok hr
  obtain ⟨factory, hfactory, hhandler⟩ := hregistry.exists_factory hhandler
  exact ⟨n, hn, admits_of_register hfactory hhandler hr⟩

end Running

end ShardPlan
