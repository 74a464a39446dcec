import ShardPlan.Proofs.Planning.Computes
import ShardPlan.Proofs.Network.Levels

/-! # Handlers that only refuse

A handler looks up operands, and refuses the node if one is missing. `Avoids` says of a run that it does not end
with some failure; it is composed like the runs are. With the handlers of this library, finding the handler of
a node and its generators ends with no failure but a refusal of the node for what it is
(`Handler.builtIn_avoids`). In particular it only refuses (`OnlyRefuses`), and where the sizes of all tensors
can be counted (`Graph.IsBounded`) the handler fails in no other way either (`Handler.refusal_of_fails`). -/

namespace ShardPlan

/-! ### Runs without a failure -/

/-- **The run avoids a failure**: it cannot end with it. -/
def Avoids {m : Type → Type} [Monad m] [MonadExceptOf (Failure Refusal) m] [Runs m] {α : Type}
    (e : Failure Refusal) (x : m α) : Prop :=
  ¬ CanEnd x (.error e)

/-- **The run cannot end with a fault**, only with a value or a refusal. -/
def OnlyRefuses {m : Type → Type} [Monad m] [MonadExceptOf (Failure Refusal) m] [Runs m] {α : Type}
    (x : m α) : Prop :=
  ∀ f, ¬ CanEnd x (.error (.fault f))

section Running

variable {m : Type → Type} [Monad m] [MonadExceptOf (Failure Refusal) m] [Runs m] {α β : Type}

namespace Avoids

variable {e : Failure Refusal}

theorem pure (a : α) : Avoids e (Pure.pure a : m α) := Runs.not_canEnd_pure_error

theorem bind {x : m α} {f : α → m β} (hx : Avoids e x)
    (hf : ∀ a, CanEnd x (.ok a) → Avoids e (f a)) : Avoids e (x >>= f) := by
  intro h
  rcases h.bind_error with h | ⟨a, ha, h⟩
  · exact hx h
  · exact hf a ha h

theorem mapM [LawfulMonad m] {f : α → m β} {list : List α} (h : ∀ a ∈ list, Avoids e (f a)) :
    Avoids e (list.mapM f) := by
  intro hend
  obtain ⟨a, ha, hend⟩ := hend.mapM_error
  exact h a ha hend

theorem foldlM {f : β → α → m β} {list : List α} {b : β}
    (h : ∀ a ∈ list, ∀ b, Avoids e (f b a)) : Avoids e (list.foldlM f b) := by
  intro hend
  obtain ⟨past, a, rest, b', hlist, -, hend⟩ :=
    hend.foldlM_error (fun _ _ => True) trivial fun _ _ _ => trivial
  exact h a (by simp [hlist]) b' hend

theorem raise {x : Planned α} (h : Avoids e x) : Avoids e (ShardPlan.raise x : m α) :=
  fun hend => h hend.of_raise

theorem ok (a : α) : Avoids e (.ok a : Planned α) := pure a

theorem ofChecked {x : Checked α} (h : HasValue x) : Avoids e (Outcome.ofChecked x : Planned α) := by
  obtain ⟨a, rfl⟩ := h
  exact ok a

theorem refusal_ofChecked {refusal : Refusal} (x : Checked α) :
    Avoids (.refusal refusal) (Outcome.ofChecked x : Planned α) := by
  cases x with
  | ok a => exact ok a
  | error f => exact nofun

end Avoids

namespace OnlyRefuses

theorem pure (a : α) : OnlyRefuses (Pure.pure a : m α) := fun _ => Avoids.pure a

theorem bind {x : m α} {f : α → m β} (hx : OnlyRefuses x)
    (hf : ∀ a, CanEnd x (.ok a) → OnlyRefuses (f a)) : OnlyRefuses (x >>= f) :=
  fun fault => Avoids.bind (hx fault) fun a ha => hf a ha fault

theorem mapM [LawfulMonad m] {f : α → m β} {list : List α} (h : ∀ a ∈ list, OnlyRefuses (f a)) :
    OnlyRefuses (list.mapM f) :=
  fun fault => Avoids.mapM fun a ha => h a ha fault

theorem foldlM {f : β → α → m β} {list : List α} {b : β}
    (h : ∀ a ∈ list, ∀ b, OnlyRefuses (f b a)) : OnlyRefuses (list.foldlM f b) :=
  fun fault => Avoids.foldlM fun a ha b => h a ha b fault

theorem raise {x : Planned α} (h : OnlyRefuses x) : OnlyRefuses (ShardPlan.raise x : m α) :=
  fun fault => Avoids.raise (h fault)

theorem eq_refusal {x : m α} (h : OnlyRefuses x) {e : Failure Refusal} (hx : CanEnd x (.error e)) :
    ∃ refusal, e = .refusal refusal := by
  cases e with
  | fault f => exact absurd hx (h f)
  | refusal refusal => exact ⟨refusal, rfl⟩

theorem ends {x : m α} (h : OnlyRefuses x) {o : Planned α} (hx : CanEnd x o) :
    (∃ a, o = .ok a) ∨ ∃ refusal, o = .error (.refusal refusal) := by
  cases o with
  | ok a => exact .inl ⟨a, rfl⟩
  | error e =>
    obtain ⟨refusal, rfl⟩ := h.eq_refusal hx
    exact .inr ⟨refusal, rfl⟩

theorem ok (a : α) : OnlyRefuses (.ok a : Planned α) := pure a

theorem refusal (e : Refusal) : OnlyRefuses (.error (.refusal e) : Planned α) := fun _ => nofun

theorem refuse (site : Site) (reason : Reason) : OnlyRefuses (site.refuse reason : Planned α) :=
  refusal _

theorem ofChecked {x : Checked α} (h : HasValue x) : OnlyRefuses (Outcome.ofChecked x : Planned α) :=
  fun _ => Avoids.ofChecked h

end OnlyRefuses

end Running

/-! ### Operands of a site -/

/-- Whether the reason is that a node is not in the graph. -/
def Reason.isUnknown : Reason → Bool
  | .unknownArgument _ | .unknownNode _ | .unknownPredecessor _ => true
  | _ => false

/-- **A failure that a node is not to blame for**: anything but the refusal of the node for what it is. To be
refused for a node that is not in the graph is not the fault of the node. -/
def Failure.IsForeign (e : Failure Refusal) (node : NodeLabel) : Prop :=
  ∀ reason, e = .refusal (.misconfigured node reason) → reason.isUnknown = true

theorem Failure.isForeign_fault (f : Fault) (node : NodeLabel) :
    (Failure.fault f : Failure Refusal).IsForeign node := nofun

namespace Site

variable {site : Site} {e : Failure Refusal} (he : e.IsForeign site.node.label)
include he

theorem refuse_avoids {α : Type} {reason : Reason} (hreason : reason.isUnknown = false) :
    Avoids e (site.refuse reason : Planned α) := by
  intro h
  exact nomatch hreason.symm.trans (he _ (Except.error.inj h).symm)

/-- Arguments that a node has are looked up, and so are the first two of any node. -/
theorem argument_avoids (hnode : site.node ∈ site.graph.nodes) {index : Nat}
    (h : index < site.node.args.length ∨ index < 2) : Avoids e (site.argument index) := by
  unfold argument
  split
  · rename_i hnone
    have hlength := List.getElem?_eq_none_iff.mp hnone
    have htwo : 2 < wordLimit := by decide
    have hsucc : Size.succ index = .ok (index + 1) := by rw [Size.succ, if_pos (by omega)]
    exact (Avoids.ofChecked ⟨_, hsucc⟩).bind fun needed _ => refuse_avoids he rfl
  · rename_i id hid
    obtain ⟨arg, harg⟩ := Graph.exists_argument hnode (List.mem_of_getElem? hid)
    rw [harg]
    dsimp only
    split
    · exact refuse_avoids he rfl
    · exact .ok _

theorem result_avoids : Avoids e site.result := by
  unfold result
  split
  · exact refuse_avoids he rfl
  · exact .ok _

theorem mapped_avoids (operands : OperandMap) (name : String) :
    Avoids e (site.mapped operands name) := by
  unfold mapped
  split
  · exact refuse_avoids he rfl
  · exact .ok _

theorem parameter_avoids (m : ModuleTree) (name : String) : Avoids e (site.parameter m name) := by
  unfold parameter
  split
  · exact refuse_avoids he rfl
  · exact .ok _

theorem calledModule_avoids : Avoids e site.calledModule := by
  unfold calledModule
  split
  · split
    · exact refuse_avoids he rfl
    · split
      · exact refuse_avoids he rfl
      · exact .ok _
  · exact refuse_avoids he rfl

theorem demands_avoids (previous : Node) (id : Nat) (s : Strategy) :
    Avoids e (site.demands previous id s) := by
  have htyped : Avoids e (site.typedOperands (s.argumentsFrom id)) := by
    refine .mapM fun o _ => ?_
    split
    · exact refuse_avoids he rfl
    · exact .ok _
  refine htyped.bind fun operands _ => ?_
  dsimp only
  split
  · exact refuse_avoids he rfl
  · exact .ok _

theorem supply_avoids (previous : Node) (candidate : Strategy) :
    Avoids e (site.supply previous candidate) := by
  unfold supply
  split
  · exact refuse_avoids he rfl
  · exact .ok _

end Site

/-! ### Generators -/

namespace Handler

variable {site : Site} {handler : Handler} {e : Failure Refusal} (he : e.IsForeign site.node.label)
include he

theorem input_avoids (h : input site = .ok handler) : Avoids e handler.generators := by
  cases h
  have hoperands : Avoids e (inputOperands site) := (Site.result_avoids he).bind fun output _ => .ok _
  exact hoperands.bind fun operands _ => (Site.mapped_avoids he operands _).bind fun _ _ => .ok _

theorem output_avoids (hnode : site.node ∈ site.graph.nodes) (h : output site = .ok handler) :
    Avoids e handler.generators := by
  cases h
  have hoperands : Avoids e (outputOperands site) := by
    refine .foldlM fun index hindex operands => ?_
    exact (Site.argument_avoids he hnode (.inl (List.mem_range.mp hindex))).bind fun operand _ => .ok _
  exact hoperands.bind fun operands _ => .ok _

theorem elementwise_avoids (hnode : site.node ∈ site.graph.nodes) (h : elementwise site = .ok handler) :
    Avoids e handler.generators := by
  cases h
  have hindex : ∀ n ∈ (argumentNames.take site.node.args.length).zipIdx, n.2 < 2 := by
    intro n hn
    have hlt := List.snd_lt_of_mem_zipIdx hn
    have hle := List.length_take_le' site.node.args.length argumentNames
    have hnames : argumentNames.length = 2 := rfl
    omega
  have hoperands : Avoids e (elementwiseOperands site) := by
    unfold elementwiseOperands
    dsimp only
    split
    · exact (Site.refuse_avoids he rfl).bind nofun
    · refine Avoids.bind (.foldlM fun n hn operands => ?_) fun arguments _ =>
        (Site.result_avoids he).bind fun output _ => .ok _
      exact (Site.argument_avoids he hnode (.inr (hindex n hn))).bind fun operand _ => .ok _
  exact hoperands.bind fun operands _ => (Site.mapped_avoids he operands _).bind fun _ _ => .ok _

theorem weightType_avoids (m : ModuleTree) : Avoids e (weightType site m) := by
  refine (Site.parameter_avoids he m "weight").bind fun w _ => ?_
  dsimp only
  split
  · exact Site.refuse_avoids he rfl
  · exact .ok w

theorem logicalWeight_avoids (m : ModuleTree) : Avoids e (logicalWeight site m) := by
  refine (weightType_avoids he m).bind fun w hw => ?_
  obtain ⟨-, hrank⟩ := weightType_eq_ok_iff.mp hw
  exact (Avoids.ofChecked (exists_transposed hrank)).bind fun w' _ => .ok _

theorem layer_avoids (hnode : site.node ∈ site.graph.nodes) (m : ModuleTree) :
    Avoids e (layer site m).generators := by
  have hoperands : Avoids e (linearOperands site m) :=
    (Site.argument_avoids he hnode (.inr (by omega))).bind fun i _ =>
      (logicalWeight_avoids he m).bind fun weight _ => (Site.result_avoids he).bind fun o _ => .ok _
  exact hoperands.bind fun operands _ => (Site.mapped_avoids he operands _).bind fun i _ =>
    (Site.mapped_avoids he operands _).bind fun weight _ =>
      (Site.mapped_avoids he operands _).bind fun o _ => .ok _

theorem storeWeight_avoids (m : ModuleTree) (s : Strategy) : Avoids e (storeWeight site m s) := by
  refine (logicalWeight_avoids he m).bind fun logical _ =>
    ((weightType_avoids he m).bind fun w _ => .ok _).bind fun stored _ => ?_
  split
  · exact Site.refuse_avoids he rfl
  · exact .ok _

/-- **A handler of this library** is found, and lists and refines its strategies, without a failure that the node
is not to blame for. -/
theorem builtIn_avoids {factory : Factory} (hfactory : factory ∈ builtIn) :
    Avoids e (factory site) ∧ ∀ {handler}, factory site = .ok handler →
      (site.node ∈ site.graph.nodes → Avoids e handler.generators) ∧
        ∀ s, Avoids e (handler.refine s) := by
  simp only [builtIn, List.mem_cons, List.not_mem_nil, or_false] at hfactory
  rcases hfactory with rfl | rfl | rfl | rfl
  · refine ⟨.ok _, fun {handler} h => ⟨fun _ => input_avoids he h, fun s => ?_⟩⟩
    cases h
    exact .ok _
  · refine ⟨.ok _, fun {handler} h => ⟨fun hnode => output_avoids he hnode h, fun s => ?_⟩⟩
    cases h
    exact .ok _
  · refine ⟨.ok _, fun {handler} h => ⟨fun hnode => elementwise_avoids he hnode h, fun s => ?_⟩⟩
    cases h
    exact .ok _
  · refine ⟨(Site.calledModule_avoids he).bind fun m _ => .ok _, fun {handler} h => ?_⟩
    obtain ⟨m, -, rfl⟩ := linear_eq_ok_iff.mp h
    exact ⟨fun hnode => layer_avoids he hnode m, storeWeight_avoids he m⟩

end Handler

theorem Registry.IsBuiltIn.handler_avoids {r : Registry} (hr : r.IsBuiltIn) (site : Site)
    {e : Failure Refusal} (he : e.IsForeign site.node.label) : Avoids e (r.handler site) := by
  unfold Registry.handler
  split
  · exact .ok _
  · exact .ok _
  · split
    · exact Site.refuse_avoids he rfl
    · rename_i factory hfactory
      exact (Handler.builtIn_avoids he (hr.functions factory (SortedMap.mem_values.mpr ⟨_, hfactory⟩))).1
  · split
    · exact Site.refuse_avoids he rfl
    · split
      · exact Site.refuse_avoids he rfl
      · rename_i factory hfactory
        exact (Handler.builtIn_avoids he (hr.modules factory (SortedMap.mem_values.mpr ⟨_, hfactory⟩))).1

/-! ### Graphs whose sizes can be counted -/

/-- **A graph whose sizes can be counted**: those of the tensors of its nodes, and of the parameters of the
modules that its nodes can call. -/
structure Graph.IsBounded (graph : Graph) : Prop where
  nodes : ∀ n ∈ graph.nodes, ∀ t, n.tensor = some t → t.IsBounded
  parameters : ∀ owner, graph.owner = some owner → ∀ path m, owner.descendant? path = some m →
    ∀ name t, m.parameters.get? name = some t → t.IsBounded

/-- A node of such a graph. -/
structure Site.IsBounded (site : Site) : Prop where
  graph : site.graph.IsBounded
  mem : site.node ∈ site.graph.nodes

namespace Site

variable {site : Site}

theorem IsBounded.result (h : site.IsBounded) : (Operand.ofResult site.node).IsBounded :=
  h.graph.nodes site.node h.mem

theorem IsBounded.feeds (h : site.IsBounded) {id : Nat} {o : Operand} (ho : site.Feeds id o) :
    o.IsBounded := by
  obtain ⟨arg, harg, -, rfl⟩ := ho
  exact h.graph.nodes arg (Graph.mem_nodes_of_node? harg)

theorem IsBounded.feeds_all (h : site.IsBounded) {inputs : List Operand}
    (hinputs : List.Forall₂ site.Feeds site.node.args inputs) : ∀ o ∈ inputs, o.IsBounded := by
  intro o ho
  obtain ⟨id, -, hfeeds⟩ := (mem_of_forall₂ hinputs).1 o ho
  exact h.feeds hfeeds

theorem IsBounded.parameter (h : site.IsBounded) {m : ModuleTree} (hm : site.calledModule = .ok m)
    {name : String} {t : TensorType} (ht : m.parameters.get? name = some t) : t.IsBounded := by
  unfold calledModule at hm
  split at hm
  · split at hm
    · exact nomatch hm
    · rename_i path _ _ owner howner
      split at hm
      · exact nomatch hm
      · rename_i m' hm'
        cases hm
        exact h.graph.parameters owner howner path m hm' name t ht
  · exact nomatch hm

end Site

namespace Handler

variable {site : Site} {handler : Handler}

/-- **A handler of this library computes its candidates** once it finds its operands. -/
theorem Finds.computes (h : Finds site handler) (hsite : site.IsBounded) :
    handler.Computes site.mesh := by
  cases h with
  | input h htyped => exact input_computes h htyped hsite.result
  | output h hinputs =>
    exact output_computes h hinputs (Boundary.outputGenerator_hasValue (hsite.feeds_all hinputs))
  | elementwise h hcount hinputs htyped =>
    exact elementwise_computes h hcount hinputs (hsite.feeds_all hinputs) htyped hsite.result
  | layer h hm hfirst hfeeds hw hrank htyped =>
    subst h
    refine layer_computes hfirst hfeeds (hsite.feeds hfeeds) hw hrank (hsite.parameter hm hw) ?_
      htyped hsite.result
    intro b hb t ht
    obtain ⟨t', ht', rfl⟩ := Option.map_eq_some_iff.mp hb
    cases ht
    exact hsite.parameter hm ht'

theorem isCountable_of_builtIn {factory : Factory} (hfactory : factory ∈ builtIn)
    (h : factory site = .ok handler) (hsite : site.IsBounded) : handler.IsCountable site.mesh := by
  intro strategies hcandidates
  obtain ⟨generators, hgen⟩ := exists_generators hcandidates
  exact ((finds_of_generators hfactory h hgen).computes hsite).isCountable hcandidates

/-- **A handler of this library fails only by refusing the node.** -/
theorem refusal_of_fails {factory : Factory} (hfactory : factory ∈ builtIn)
    (h : factory site = .ok handler) (hsite : site.IsBounded) {e : Failure Refusal}
    (hfails : handler.Fails e) : ∃ refusal, e = .refusal refusal := by
  cases hgen : handler.generators with
  | error e' =>
    have honly : OnlyRefuses handler.generators := fun f =>
      ((builtIn_avoids (Failure.isForeign_fault f _) hfactory).2 h).1 hsite.mem
    rcases hfails with hfail | ⟨generators, hgenerators, -⟩
    · exact honly.eq_refusal hfail
    · exact nomatch hgen.symm.trans hgenerators
  | ok generators =>
    exact absurd hfails (((finds_of_generators hfactory h hgen).computes hsite).not_fails e)

end Handler

end ShardPlan
