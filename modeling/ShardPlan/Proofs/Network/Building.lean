import Mathlib.Data.List.Induction
import ShardPlan.Proofs.Network.Levels

/-! # Building a graph

A graph is built by calls that each add a node, and each node keeps a list of its users, to which a call
adds its own number at every argument. A call that names an argument that is not there yet fails.

* `eraseDups_concat`, `pairwise_idxOf_eraseDups`: the predecessors of a node are its arguments in the order
  of their first use.
* `getElem?_wire`, `node?_of_add?_of_lt`, `node?_of_add?_size`: what a call does to every node.
* `Linked`: the users of a node are in order, and they are the nodes that have it as an argument.
  `Linked.add?` is the step, `linked_built` the run.
* `Adds`: what a call leaves that does not fail (`Linked.adds`). -/

namespace ShardPlan

/-! ### Lists without repetitions -/

theorem eraseDups_concat {α : Type} [BEq α] [LawfulBEq α] (list : List α) (a : α) :
    (list ++ [a]).eraseDups = if a ∈ list then list.eraseDups else list.eraseDups ++ [a] := by
  rw [List.eraseDups_append]
  split
  · next h => simp [List.removeAll, h]
  · next h => simp [List.removeAll, h, List.eraseDups_cons]

/-- **Erasing repetitions keeps the order of the first uses.** -/
theorem pairwise_idxOf_eraseDups {α : Type} [BEq α] [LawfulBEq α] (list : List α) :
    list.eraseDups.Pairwise fun a b => list.idxOf a < list.idxOf b := by
  induction list using List.reverseRecOn with
  | nil => exact List.Pairwise.nil
  | append_singleton list a ih =>
    have hsame : ∀ b ∈ list, (list ++ [a]).idxOf b = list.idxOf b := fun b hb => by
      rw [List.idxOf_append, if_pos hb]
    have hold : list.eraseDups.Pairwise fun b c => (list ++ [a]).idxOf b < (list ++ [a]).idxOf c :=
      ih.imp_of_mem fun {b c} hb hc hlt => by
        rw [hsame b (List.mem_eraseDups.mp hb), hsame c (List.mem_eraseDups.mp hc)]
        exact hlt
    rw [eraseDups_concat]
    split
    · exact hold
    · next ha =>
      refine List.pairwise_append.mpr ⟨hold, List.pairwise_singleton _ a, fun b hb c hc => ?_⟩
      have hb : b ∈ list := List.mem_eraseDups.mp hb
      have hlast : (list ++ [a]).idxOf a = list.length := by
        rw [List.idxOf_append, if_neg ha, List.idxOf_cons_self, Nat.zero_add]
      rw [List.mem_singleton.mp hc, hsame b hb, hlast]
      exact List.idxOf_lt_length_of_mem hb

/-! ### Further users -/

namespace Node

variable {n : Node} {id : Nat}

theorem usedBy_of_notMem (h : id ∉ n.users) : n.usedBy id = { n with users := n.users ++ [id] } := by
  unfold usedBy
  simp [h]

theorem usedBy_usedBy (n : Node) (id : Nat) : (n.usedBy id).usedBy id = n.usedBy id := by
  by_cases h : id ∈ n.users
  · simp [usedBy, h]
  · simp [usedBy, h]

theorem args_usedBy (n : Node) (id : Nat) : (n.usedBy id).args = n.args :=
  congr_usedBy (fun _ _ => rfl) n id

end Node

namespace Graph

/-- **Wiring** gives the user to every argument once, however often the argument is repeated. -/
theorem getElem?_wire (id i : Nat) : ∀ (args : List Nat) (nodes : List Node),
    (wire args id nodes)[i]? = nodes[i]?.map fun n => if i ∈ args then n.usedBy id else n
  | [], nodes => by simp [wire]
  | arg :: args, nodes => by
    have hfirst : (nodes.modify arg (·.usedBy id))[i]? =
        nodes[i]?.map fun n => if arg = i then n.usedBy id else n := by
      rw [List.getElem?_modify]
      split <;> rfl
    have hrest := getElem?_wire id i args (nodes.modify arg (·.usedBy id))
    rw [hfirst, Option.map_map] at hrest
    refine hrest.trans (congrArg (nodes[i]?.map ·) (funext fun n => ?_))
    simp only [Function.comp_apply, List.mem_cons]
    by_cases hi : arg = i
    · subst hi
      simp [Node.usedBy_usedBy]
    · simp [hi, Ne.symm hi]

/-! ### A further node -/

section Adding

variable {g g' : Graph} {name : String} {operation : Operation} {args : List Nat}
  {tensor : Option TensorType}

theorem add?_eq_none_iff : g.add? name operation args tensor = none ↔ ∃ arg ∈ args, g.size ≤ arg := by
  unfold add?
  split
  · next h =>
    refine ⟨nofun, fun ⟨arg, harg, hle⟩ => ?_⟩
    have := h arg harg
    omega
  · next h =>
    refine ⟨fun _ => ?_, fun _ => rfl⟩
    simpa using h

theorem add_eq_error_iff :
    g.add name operation args tensor = .error .danglingArgument ↔ ∃ arg ∈ args, g.size ≤ arg := by
  have hnone : g.add? name operation args tensor = none ↔ ∃ arg ∈ args, g.size ≤ arg := add?_eq_none_iff
  rw [← hnone, add]
  cases g.add? name operation args tensor <;> simp

theorem exists_add? (h : ∀ arg ∈ args, arg < g.size) :
    ∃ g', g.add? name operation args tensor = some g' :=
  ⟨_, dif_pos h⟩

theorem nodes_of_add? (h : g.add? name operation args tensor = some g') :
    g'.nodes = g.extend name operation args tensor ∧ ∀ arg ∈ args, arg < g.size := by
  unfold add? at h
  split at h
  · next hargs =>
    cases h
    exact ⟨rfl, hargs⟩
  · exact nomatch h

theorem size_of_add? (h : g.add? name operation args tensor = some g') : g'.size = g.size + 1 := by
  have hlength := congrArg List.length (nodes_of_add? h).1
  rwa [extend, List.length_append, length_wire] at hlength

theorem node?_of_add?_of_lt (h : g.add? name operation args tensor = some g') {i : Nat}
    (hi : i < g.size) :
    g'.node? i = (g.node? i).map fun n => if i ∈ args then n.usedBy g.size else n := by
  have hi : i < (wire args g.size g.nodes).length := by
    rw [length_wire]
    exact hi
  rw [node?, (nodes_of_add? h).1, extend, List.getElem?_append_left hi, getElem?_wire]
  rfl

theorem node?_of_add?_size (h : g.add? name operation args tensor = some g') :
    g'.node? g.size = some ⟨g.size, name, operation, args, [], tensor⟩ := by
  have hlength : (wire args g.size g.nodes).length = g.size := length_wire _ _ _
  rw [node?, (nodes_of_add? h).1, extend, List.getElem?_append_right (Nat.le_of_eq hlength), hlength,
    Nat.sub_self]
  rfl

end Adding

/-! ### Users -/

/-- **The users of a node are the nodes that have it as an argument**, in ascending order. -/
structure Linked (g : Graph) : Prop where
  ascending : ∀ {v n}, g.node? v = some n → n.users.Pairwise (· < ·)
  mem_users : ∀ {v n u}, g.node? v = some n → (u ∈ n.users ↔ g.Uses u v)

theorem linked_empty : empty.Linked := ⟨nofun, nofun⟩

section Linking

variable {g g' : Graph} {name : String} {operation : Operation} {args : List Nat}
  {tensor : Option TensorType}

theorem uses_of_add? (h : g.add? name operation args tensor = some g') {u v : Nat} :
    g'.Uses u v ↔ g.Uses u v ∨ (u = g.size ∧ v ∈ args) := by
  unfold Uses
  rcases Nat.lt_trichotomy u g.size with hlt | rfl | hgt
  · have hne : u ≠ g.size := Nat.ne_of_lt hlt
    have hargs : ∀ n : Node, (if u ∈ args then n.usedBy g.size else n).args = n.args := fun n => by
      split
      · exact Node.args_usedBy n _
      · rfl
    rw [node?_of_add?_of_lt h hlt]
    simp [hne, hargs]
  · have hnone : g.node? g.size = none := List.getElem?_eq_none (Nat.le_refl _)
    rw [node?_of_add?_size h]
    simp [hnone]
  · have hne : u ≠ g.size := Nat.ne_of_gt hgt
    have hsize := size_of_add? h
    have hnone : g.node? u = none := List.getElem?_eq_none (Nat.le_of_lt hgt)
    have hnone' : g'.node? u = none := List.getElem?_eq_none (by rw [size] at hsize; omega)
    simp [hnone, hnone', hne]

theorem Linked.lt_size (hg : g.Linked) {u v : Nat} {n : Node} (hn : g.node? v = some n)
    (hu : u ∈ n.users) : u < g.size := by
  obtain ⟨user, huser, -⟩ := (hg.mem_users hn).mp hu
  exact lt_size_of_node? huser

theorem Linked.node?_of_add?_of_lt (hg : g.Linked) (h : g.add? name operation args tensor = some g')
    {v : Nat} (hv : v < g.size) :
    g'.node? v = (g.node? v).map fun n =>
      if v ∈ args then { n with users := n.users ++ [g.size] } else n := by
  rw [Graph.node?_of_add?_of_lt h hv]
  refine Option.map_congr fun n hn => ?_
  have hnew : g.size ∉ n.users := fun hmem => Nat.lt_irrefl _ (hg.lt_size hn hmem)
  rw [Node.usedBy_of_notMem hnew]

theorem Linked.users_of_add? (hg : g.Linked) (h : g.add? name operation args tensor = some g')
    {v : Nat} {n : Node} (hn : g'.node? v = some n) :
    (∃ old, g.node? v = some old ∧ n.users = if v ∈ args then old.users ++ [g.size] else old.users) ∨
      (v = g.size ∧ n.users = []) := by
  have hv := lt_size_of_node? hn
  rw [size_of_add? h] at hv
  rcases Nat.lt_or_eq_of_le (Nat.le_of_lt_succ hv) with hlt | rfl
  · left
    rw [hg.node?_of_add?_of_lt h hlt] at hn
    obtain ⟨old, hold, rfl⟩ := Option.map_eq_some_iff.mp hn
    exact ⟨old, hold, apply_ite Node.users _ _ _⟩
  · right
    rw [node?_of_add?_size h] at hn
    cases hn
    exact ⟨rfl, rfl⟩

/-- **A further node keeps the users right.** -/
theorem Linked.add? (hg : g.Linked) (h : g.add? name operation args tensor = some g') :
    g'.Linked := by
  have hargs := (nodes_of_add? h).2
  refine ⟨fun {v n} hn => ?_, fun {v n u} hn => ?_⟩
  · rcases hg.users_of_add? h hn with ⟨old, hold, heq⟩ | ⟨-, heq⟩
    · rw [heq]
      split
      · refine List.pairwise_append.mpr ⟨hg.ascending hold, List.pairwise_singleton _ _, ?_⟩
        intro u hu w hw
        rw [List.mem_singleton.mp hw]
        exact hg.lt_size hold hu
      · exact hg.ascending hold
    · rw [heq]
      exact List.Pairwise.nil
  · rw [uses_of_add? h]
    rcases hg.users_of_add? h hn with ⟨old, hold, heq⟩ | ⟨rfl, heq⟩
    · rw [heq, ← hg.mem_users hold]
      split
      · next hv => simp [hv]
      · next hv => simp [hv]
    · -- no node has an argument that was not there before
      have hold : ¬ g.Uses u g.size := fun ⟨user, huser, hmem⟩ => by
        have := arg_lt_of_node? huser hmem
        have := lt_size_of_node? huser
        omega
      have hnew : g.size ∉ args := fun hmem => Nat.lt_irrefl _ (hargs _ hmem)
      simp [heq, hold, hnew]

end Linking

/-! ### Calls -/

/-- A call that adds a node. -/
structure Addition where
  name : String
  operation : Operation
  args : List Nat
  tensor : Option TensorType
  /-- Whether an argument that was not added before is a fault. -/
  strict : Bool

/-- The graph that a call leaves. One that fails leaves what was there. -/
def after (g : Graph) (call : Addition) : Graph :=
  if call.strict then
    match g.add call.name call.operation call.args call.tensor with
    | .ok g' => g'
    | .error _ => g
  else (g.add? call.name call.operation call.args call.tensor).getD g

/-- The graph that calls leave, one after the other. -/
def built (calls : List Addition) : Graph := calls.foldl after empty

theorem built_concat (calls : List Addition) (call : Addition) :
    built (calls ++ [call]) = (built calls).after call := by
  rw [built, List.foldl_append]
  rfl

theorem after_eq (g : Graph) (call : Addition) :
    g.after call = (g.add? call.name call.operation call.args call.tensor).getD g := by
  unfold after add
  cases call.strict with
  | true => cases g.add? call.name call.operation call.args call.tensor <;> rfl
  | false => rfl

theorem linked_built (calls : List Addition) : (built calls).Linked := by
  induction calls using List.reverseRecOn with
  | nil => exact linked_empty
  | append_singleton calls call ih =>
    rw [built_concat, after_eq]
    cases h : (built calls).add? call.name call.operation call.args call.tensor with
    | none => exact ih
    | some g => exact ih.add? h

/-- `g'` is `g` with the node of a call, which is the last user of each of its arguments. All else that
`g` says of its nodes is as it was. -/
structure Adds (g : Graph) (call : Addition) (g' : Graph) : Prop where
  size_eq : g'.size = g.size + 1
  node?_size : g'.node? g.size =
    some ⟨g.size, call.name, call.operation, call.args, [], call.tensor⟩
  node?_of_lt : ∀ {v}, v < g.size → g'.node? v = (g.node? v).map fun n =>
    if v ∈ call.args then { n with users := n.users ++ [g.size] } else n

theorem Linked.adds {g g' : Graph} (hg : g.Linked) {call : Addition}
    (h : g.add? call.name call.operation call.args call.tensor = some g') : g.Adds call g' where
  size_eq := size_of_add? h
  node?_size := node?_of_add?_size h
  node?_of_lt := hg.node?_of_add?_of_lt h

/-- **A graph that is built by calls.** A node has its position as number and smaller arguments. Its users
are the nodes that have it as an argument, in ascending order, and its predecessors are its arguments in
the order of their first use, so that one node is among the users of another iff that is among its
predecessors. A call fails iff it names an argument that is not there yet, and then leaves the graph; any
other call adds its node. -/
theorem built_spec (calls : List Addition) :
    (∀ v n, (built calls).node? v = some n →
      n.id = v ∧ (∀ arg ∈ n.args, arg < v) ∧
      n.users.Pairwise (· < ·) ∧
      (∀ u, u ∈ n.users ↔ (built calls).Uses u v) ∧
      n.predecessors.Nodup ∧ (∀ arg, arg ∈ n.predecessors ↔ arg ∈ n.args) ∧
      n.predecessors.Pairwise fun a b => n.args.idxOf a < n.args.idxOf b) ∧
    (∀ u v user n, (built calls).node? u = some user → (built calls).node? v = some n →
      (u ∈ n.users ↔ v ∈ user.predecessors)) ∧
    ∀ call : Addition,
      ((built calls).add? call.name call.operation call.args call.tensor = none ↔
        ∃ arg ∈ call.args, (built calls).size ≤ arg) ∧
      ((built calls).add call.name call.operation call.args call.tensor = .error .danglingArgument ↔
        ∃ arg ∈ call.args, (built calls).size ≤ arg) ∧
      ((∃ arg ∈ call.args, (built calls).size ≤ arg) → built (calls ++ [call]) = built calls) ∧
      ((∀ arg ∈ call.args, arg < (built calls).size) →
        (built calls).add? call.name call.operation call.args call.tensor =
          some (built (calls ++ [call])) ∧
        (built calls).add call.name call.operation call.args call.tensor =
          .ok (built (calls ++ [call])) ∧
        (built calls).Adds call (built (calls ++ [call]))) := by
  have hlinked := linked_built calls
  refine ⟨fun v n hn => ?_, fun u v user n huser hn => ?_,
    fun call => ⟨add?_eq_none_iff, add_eq_error_iff, fun hdangling => ?_, fun hargs => ?_⟩⟩
  · have hfirst := pairwise_idxOf_eraseDups n.args
    have hnodup : n.predecessors.Nodup := hfirst.imp fun {a b} hlt heq => by
      rw [heq] at hlt
      exact Nat.lt_irrefl _ hlt
    exact ⟨id_of_node? hn, fun arg harg => arg_lt_of_node? hn harg, hlinked.ascending hn,
      fun u => hlinked.mem_users hn, hnodup, fun arg => List.mem_eraseDups, hfirst⟩
  · rw [hlinked.mem_users hn, Uses, Node.predecessors, List.mem_eraseDups, huser]
    simp
  · rw [built_concat, after_eq, add?_eq_none_iff.mpr hdangling]
    rfl
  · obtain ⟨g', hadd⟩ : ∃ g', (built calls).add? call.name call.operation call.args call.tensor = some g' :=
      exists_add? hargs
    have hbuilt : built (calls ++ [call]) = g' := by
      rw [built_concat, after_eq, hadd]
      rfl
    rw [hbuilt]
    exact ⟨hadd, by rw [add, hadd], hlinked.adds hadd⟩

/-- Calls for an input, its square, and a node that would be its own argument. -/
def squaring : List Addition :=
  [⟨"x", .input, [], none, false⟩, ⟨"square", .function "mul", [0, 0], none, true⟩,
    ⟨"loop", .function "add", [0, 2], none, false⟩]

/-- A call for a sum that repeats the input. -/
def summing : Addition := ⟨"sum", .function "add", [1, 0, 0], none, true⟩

theorem built_spec_of_squaring :
    let g := built (squaring ++ [summing])
    let x : Node := ⟨0, "x", .input, [], [1, 2], none⟩
    let sum : Node := ⟨2, "sum", .function "add", [1, 0, 0], [], none⟩
    ((∃ arg ∈ [0, 2], (built (squaring.take 2)).size ≤ arg) ∧
        built squaring = built (squaring.take 2)) ∧
      ((∀ arg ∈ summing.args, arg < (built squaring).size) ∧ g.size = 3 ∧ g.node? 2 = some sum ∧
        g.node? 1 = some ⟨1, "square", .function "mul", [0, 0], [2], none⟩ ∧ g.node? 0 = some x) ∧
      (∀ u, u ∈ [1, 2] ↔ g.Uses u 0) ∧ (2 ∈ x.users ↔ 0 ∈ sum.predecessors) := by
  intro g x sum
  have hloop : ∃ arg ∈ [0, 2], (built (squaring.take 2)).size ≤ arg := ⟨2, by decide, by decide⟩
  have hfails : built squaring = built (squaring.take 2) :=
    ((built_spec (squaring.take 2)).2.2 ⟨"loop", .function "add", [0, 2], none, false⟩).2.2.1 hloop
  have hargs : ∀ arg ∈ summing.args, arg < (built squaring).size := by decide
  obtain ⟨-, -, hadds⟩ := ((built_spec squaring).2.2 summing).2.2.2 hargs
  have hsum : g.node? 2 = some sum := hadds.node?_size
  have hx : g.node? 0 = some x := hadds.node?_of_lt (by decide)
  have hsquare := hadds.node?_of_lt (v := 1) (by decide)
  obtain ⟨hnodes, hedges, -⟩ := built_spec (squaring ++ [summing])
  exact ⟨⟨hloop, hfails⟩, ⟨hargs, hadds.size_eq, hsum, hsquare, hx⟩,
    (hnodes 0 x hx).2.2.2.1, hedges 2 0 sum x hsum hx⟩

end Graph

end ShardPlan
