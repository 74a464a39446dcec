import Mathlib.Data.List.Nodup
import Mathlib.Data.List.Perm.Basic
import ShardPlan.Network.Graph

/-! # Levels of a graph

The depth of a node is greater than those of its arguments (`depth_lt_of_mem_args`), and a level is the
nodes of one depth (`mem_level`). The levels are therefore a *layering*: every node is in one of them, and
its arguments are in earlier ones (`levels_isLayering`). An order of the nodes in which arguments come
before their users is a layering as well, with one node in each layer (`IsOrder.isLayering`). -/

namespace ShardPlan

namespace Graph

variable {g : Graph}

/-! ### Nodes and their numbers -/

theorem id_of_node? {id : Nat} {n : Node} (h : g.node? id = some n) : n.id = id := by
  have hmap : (g.nodes.map Node.id)[id]? = some n.id := by
    rw [List.getElem?_map, show g.nodes[id]? = some n from h]
    rfl
  rw [g.map_id_nodes, List.getElem?_range (List.getElem?_eq_some_iff.mp h).1] at hmap
  exact (Option.some.inj hmap).symm

theorem lt_size_of_node? {id : Nat} {n : Node} (h : g.node? id = some n) : id < g.size :=
  (List.getElem?_eq_some_iff.mp h).1

theorem exists_node? {id : Nat} (h : id < g.size) : ∃ n, g.node? id = some n :=
  ⟨_, List.getElem?_eq_getElem h⟩

theorem mem_nodes_of_node? {id : Nat} {n : Node} (h : g.node? id = some n) : n ∈ g.nodes :=
  List.mem_of_getElem? h

theorem node?_of_mem {n : Node} (h : n ∈ g.nodes) : g.node? n.id = some n := by
  obtain ⟨id, hid⟩ := List.mem_iff_getElem?.mp h
  have hn : g.node? id = some n := hid
  rw [id_of_node? hn]
  exact hn

theorem arg_lt_of_node? {id arg : Nat} {n : Node} (h : g.node? id = some n) (harg : arg ∈ n.args) :
    arg < id := by
  have hlt := g.args_lt n (mem_nodes_of_node? h) arg harg
  rwa [id_of_node? h] at hlt

theorem exists_argument {n : Node} (h : n ∈ g.nodes) {arg : Nat} (harg : arg ∈ n.args) :
    ∃ p, g.node? arg = some p :=
  exists_node? (Nat.lt_trans (g.args_lt n h arg harg) (lt_size_of_node? (node?_of_mem h)))

/-- `arg` is an argument of the node with number `id`. -/
def Uses (g : Graph) (id arg : Nat) : Prop := ∃ n, g.node? id = some n ∧ arg ∈ n.args

/-! ### Depths -/

/-- The depths of further nodes after those of the nodes before them. -/
def depthsFrom (depths : List Nat) : List Node → List Nat
  | [] => depths
  | n :: nodes =>
    let depth := (n.args.map fun arg => depths.getD arg 0 + 1).foldl max 0
    depthsFrom (depths ++ [depth]) nodes

/-- The depth of every node. -/
def depths (g : Graph) : List Nat := depthsFrom [] g.nodes

/-- The number of levels. -/
def height (g : Graph) : Nat := (g.depths.map (· + 1)).foldl max 0

theorem length_depthsFrom : ∀ (depths : List Nat) (nodes : List Node),
    (depthsFrom depths nodes).length = depths.length + nodes.length
  | depths, [] => rfl
  | depths, n :: nodes => by
    rw [depthsFrom, length_depthsFrom, List.length_append, List.length_cons, List.length_cons]
    exact Nat.add_right_comm _ 1 nodes.length

theorem isPrefix_depthsFrom : ∀ (depths : List Nat) (nodes : List Node),
    depths <+: depthsFrom depths nodes
  | depths, [] => List.prefix_refl depths
  | depths, _ :: nodes =>
    (List.prefix_append depths _).trans (isPrefix_depthsFrom _ nodes)

theorem getElem?_of_isPrefix {list list' : List Nat} {i : Nat} (h : list <+: list')
    (hi : i < list.length) : list'[i]? = list[i]? := by
  rw [List.prefix_iff_getElem?.mp h i hi, List.getElem?_eq_getElem hi]

/-- The depth of a node is what its arguments give, also once the depths of all nodes are known. -/
theorem getElem?_depthsFrom : ∀ {nodes : List Node} {depths : List Nat} {i : Nat} {n : Node},
    nodes[i]? = some n → (∀ arg ∈ n.args, arg < depths.length + i) →
      (depthsFrom depths nodes)[depths.length + i]? =
        some ((n.args.map fun arg => (depthsFrom depths nodes).getD arg 0 + 1).foldl max 0)
  | n :: nodes, depths, 0, n', hn, hargs => by
    cases hn
    have hprefix := isPrefix_depthsFrom
      (depths ++ [(n.args.map fun arg => depths.getD arg 0 + 1).foldl max 0]) nodes
    have hsame : (n.args.map fun arg => (depthsFrom depths (n :: nodes)).getD arg 0 + 1) =
        n.args.map fun arg => depths.getD arg 0 + 1 := by
      refine List.map_congr_left fun arg harg => ?_
      have hold := getElem?_of_isPrefix (isPrefix_depthsFrom depths (n :: nodes)) (hargs arg harg)
      rw [List.getD_eq_getElem?_getD, List.getD_eq_getElem?_getD, hold]
    rw [hsame, depthsFrom, getElem?_of_isPrefix hprefix (by simp)]
    simp
  | n :: nodes, depths, i + 1, n', hn, hargs => by
    have hlength : depths.length + (i + 1) =
        (depths ++ [(n.args.map fun arg => depths.getD arg 0 + 1).foldl max 0]).length + i := by
      rw [List.length_append, List.length_singleton]
      omega
    rw [hlength] at hargs ⊢
    rw [depthsFrom]
    exact getElem?_depthsFrom hn hargs

/-- The depth of the node with a number. -/
def depth (g : Graph) (id : Nat) : Nat := g.depths.getD id 0

theorem length_depths : g.depths.length = g.size := by
  rw [depths, length_depthsFrom, List.length_nil, Nat.zero_add, size]

theorem getElem?_depths {id : Nat} (h : id < g.size) : g.depths[id]? = some (g.depth id) := by
  rw [← length_depths] at h
  rw [depth, List.getD_eq_getElem?_getD, List.getElem?_eq_getElem h, Option.getD_some]

/-- **The depth of a node** is one more than the greatest depth of an argument, or zero. -/
theorem depth_eq {id : Nat} {n : Node} (h : g.node? id = some n) :
    g.depth id = (n.args.map fun arg => g.depth arg + 1).foldl max 0 := by
  have hargs : ∀ arg ∈ n.args, arg < ([] : List Nat).length + id := fun arg harg => by
    rw [List.length_nil, Nat.zero_add]
    exact arg_lt_of_node? h harg
  have hdepth := getElem?_depthsFrom h hargs
  rw [List.length_nil, Nat.zero_add] at hdepth
  rw [depth, List.getD_eq_getElem?_getD, depths, hdepth]
  rfl

theorem le_foldl_max {list : List Nat} : ∀ {a b : Nat}, a ∈ list ∨ a ≤ b → a ≤ list.foldl max b := by
  induction list with
  | nil => simp
  | cons c list ih =>
    intro a b h
    refine ih ?_
    rcases h with h | h
    · rcases List.mem_cons.mp h with rfl | h
      · exact .inr (Nat.le_max_right b _)
      · exact .inl h
    · exact .inr (Nat.le_trans h (Nat.le_max_left b c))

theorem depth_lt_of_mem_args {id arg : Nat} {n : Node} (h : g.node? id = some n)
    (harg : arg ∈ n.args) : g.depth arg < g.depth id := by
  rw [depth_eq h]
  exact le_foldl_max (.inl (List.mem_map.mpr ⟨arg, harg, rfl⟩))

theorem depth_lt_height {id : Nat} (h : id < g.size) : g.depth id < g.height :=
  le_foldl_max (.inl (List.mem_map.mpr ⟨g.depth id, List.mem_of_getElem? (getElem?_depths h), rfl⟩))

/-! ### Levels -/

/-- The nodes of one depth. -/
def level (g : Graph) (depth : Nat) : List Nat :=
  ((g.nodes.zip g.depths).filter fun e => e.2 == depth).map fun e => e.1.id

theorem length_putAt (levels : List (List Nat)) (d id : Nat) :
    (putAt levels d id).length = max levels.length (d + 1) := by
  rw [putAt, List.length_modify, List.rightpad, List.length_append, List.length_replicate]
  omega

theorem getD_putAt (levels : List (List Nat)) (d id i : Nat) :
    (putAt levels d id).getD i [] = levels.getD i [] ++ if d = i then [id] else [] := by
  have hpad : (levels.rightpad (d + 1) []).getD i [] = levels.getD i [] := by
    simp only [List.rightpad, List.getD_eq_getElem?_getD]
    by_cases h : i < levels.length
    · rw [List.getElem?_append_left h]
    · have h := Nat.le_of_not_lt h
      rw [List.getElem?_append_right h, List.getElem?_eq_none h, List.getElem?_replicate]
      split <;> rfl
  rw [← hpad, putAt, List.getD_eq_getElem?_getD, List.getD_eq_getElem?_getD, List.getElem?_modify]
  by_cases hd : d = i
  · have hlt : i < (levels.rightpad (d + 1) []).length := by
      rw [List.rightpad, List.length_append, List.length_replicate]
      omega
    rw [List.getElem?_eq_getElem hlt]
    simp [hd]
  · simp [hd]

/-- **Levels that hold the nodes placed so far**: one for each depth below the greatest, and each with the
nodes of its depth. -/
structure Tabulates (past : List Node) (depths : List Nat) (levels : List (List Nat)) : Prop where
  length_depths : depths.length = past.length
  length_levels : levels.length = (depths.map (· + 1)).foldl max 0
  getD_levels : ∀ d, levels.getD d [] = ((past.zip depths).filter fun e => e.2 == d).map fun e => e.1.id

theorem Tabulates.putAt {past : List Node} {depths : List Nat} {levels : List (List Nat)}
    (h : Tabulates past depths levels) (n : Node) (d : Nat) :
    Tabulates (past ++ [n]) (depths ++ [d]) (putAt levels d n.id) := by
  refine ⟨?_, ?_, fun i => ?_⟩
  · rw [List.length_append, List.length_append, h.length_depths, List.length_singleton,
      List.length_singleton]
  · rw [length_putAt, h.length_levels, List.map_append, List.foldl_append]
    rfl
  · rw [getD_putAt, h.getD_levels, List.zip_append h.length_depths.symm, List.filter_append,
      List.map_append]
    congr 1
    by_cases hd : d = i
    · simp [hd]
    · simp [hd]

theorem Tabulates.levelsFrom : ∀ {nodes past : List Node} {depths : List Nat} {levels : List (List Nat)},
    Tabulates past depths levels →
      Tabulates (past ++ nodes) (depthsFrom depths nodes) (levelsFrom depths levels nodes)
  | [], past, depths, levels, h => by
    rw [List.append_nil]
    exact h
  | n :: nodes, past, depths, levels, h => by
    have hfirst := h.putAt n ((n.args.map fun arg => depths.getD arg 0 + 1).foldl max 0)
    rw [← List.singleton_append, ← List.append_assoc]
    exact hfirst.levelsFrom

theorem tabulates_levels (g : Graph) : Tabulates g.nodes g.depths g.levels := by
  have hstart : Tabulates [] [] [] := ⟨rfl, rfl, fun _ => rfl⟩
  exact hstart.levelsFrom

/-- **The levels** are the nodes of each depth below the height. -/
theorem levels_eq : g.levels = (List.range g.height).map g.level := by
  have h := tabulates_levels g
  refine List.ext_getElem (by rw [h.length_levels, List.length_map, List.length_range, height]) ?_
  intro d hd _
  have hlevel := h.getD_levels d
  rw [List.getD_eq_getElem?_getD, List.getElem?_eq_getElem hd, Option.getD_some] at hlevel
  rw [hlevel, List.getElem_map, List.getElem_range]
  rfl

theorem mem_level {id d : Nat} : id ∈ g.level d ↔ id < g.size ∧ g.depth id = d := by
  simp only [level, List.mem_map, List.mem_filter, beq_iff_eq]
  constructor
  · rintro ⟨⟨n, d'⟩, ⟨hmem, hd'⟩, rfl⟩
    obtain ⟨i, hi⟩ := List.mem_iff_getElem?.mp hmem
    obtain ⟨hn, hd⟩ := List.getElem?_zip_eq_some.mp hi
    have hn : g.node? i = some n := hn
    have hlt := lt_size_of_node? hn
    rw [getElem?_depths hlt] at hd
    rw [id_of_node? hn]
    exact ⟨hlt, (Option.some.inj hd).trans hd'⟩
  · rintro ⟨hlt, hd⟩
    obtain ⟨n, hn⟩ := exists_node? hlt
    have hi : (g.nodes.zip g.depths)[id]? = some (n, d) :=
      List.getElem?_zip_eq_some.mpr ⟨hn, by rw [getElem?_depths hlt, hd]⟩
    exact ⟨(n, d), ⟨List.mem_of_getElem? hi, rfl⟩, id_of_node? hn⟩

theorem level_sublist (d : Nat) : (g.level d).Sublist (List.range g.size) := by
  have hids : (g.nodes.zip g.depths).map (fun e => e.1.id) = List.range g.size := by
    have hmap : (g.nodes.zip g.depths).map Prod.fst = g.nodes :=
      List.map_fst_zip (Nat.le_of_eq length_depths.symm)
    rw [size, ← g.map_id_nodes, ← congrArg (List.map Node.id) hmap, List.map_map]
    rfl
  rw [← hids]
  exact List.filter_sublist.map _

theorem nodup_level (d : Nat) : (g.level d).Nodup := (level_sublist d).nodup List.nodup_range

/-- **Every node is in one level.** -/
theorem order_perm (g : Graph) : g.order.Perm (List.range g.size) := by
  have hnodup : g.order.Nodup := by
    rw [order, levels_eq, List.nodup_flatten]
    refine ⟨fun level hlevel => ?_, List.pairwise_map.mpr ?_⟩
    · obtain ⟨d, -, rfl⟩ := List.mem_map.mp hlevel
      exact nodup_level d
    · refine List.nodup_range.imp fun {d d'} hne id hid hid' => hne ?_
      exact (mem_level.mp hid).2.symm.trans (mem_level.mp hid').2
  rw [List.perm_ext_iff_of_nodup hnodup List.nodup_range]
  intro id
  simp only [order, levels_eq, List.mem_flatten, List.mem_map, List.mem_range]
  constructor
  · rintro ⟨_, ⟨d, -, rfl⟩, hid⟩
    exact (mem_level.mp hid).1
  · intro hid
    exact ⟨g.level (g.depth id), ⟨g.depth id, depth_lt_height hid, rfl⟩, mem_level.mpr ⟨hid, rfl⟩⟩

/-! ### Layerings -/

/-- **Layers of the nodes**: every node is in one layer, and its arguments are in earlier ones. -/
structure IsLayering (g : Graph) (layers : List (List Nat)) : Prop where
  perm : layers.flatten.Perm (List.range g.size)
  args_mem : ∀ {past layer rest}, layers = past ++ layer :: rest → ∀ {id n}, id ∈ layer →
    g.node? id = some n → ∀ arg ∈ n.args, arg ∈ past.flatten

/-- **An order of the nodes** in which every node comes once, after its arguments. -/
structure IsOrder (g : Graph) (order : List Nat) : Prop where
  perm : order.Perm (List.range g.size)
  args_mem : ∀ {past id rest n}, order = past ++ id :: rest → g.node? id = some n →
    ∀ arg ∈ n.args, arg ∈ past

theorem IsLayering.mem_flatten_iff {layers : List (List Nat)} (h : g.IsLayering layers) {id : Nat} :
    id ∈ layers.flatten ↔ id < g.size :=
  h.perm.mem_iff.trans List.mem_range

theorem IsLayering.nodup_layer {layers past rest : List (List Nat)} {layer : List Nat}
    (h : g.IsLayering layers) (hsplit : layers = past ++ layer :: rest) :
    layer.Nodup ∧ ∀ id ∈ layer, id ∉ past.flatten := by
  have hnodup := h.perm.nodup_iff.mpr List.nodup_range
  rw [hsplit, List.flatten_append, List.flatten_cons] at hnodup
  obtain ⟨-, hlater, hdisjoint⟩ := List.nodup_append.mp hnodup
  refine ⟨(List.nodup_append.mp hlater).1, fun id hid hpast => ?_⟩
  exact hdisjoint id hpast id (List.mem_append_left _ hid) rfl

theorem levels_isLayering (g : Graph) : g.IsLayering g.levels := by
  refine ⟨g.order_perm, fun {past layer rest} hlevels {id n} hid hn arg harg => ?_⟩
  rw [levels_eq, List.map_eq_append_iff] at hlevels
  obtain ⟨depths, depths', hrange, rfl, hlater⟩ := hlevels
  obtain ⟨d, later, rfl, rfl, -⟩ := List.map_eq_cons_iff.mp hlater
  obtain ⟨-, hd⟩ := mem_level.mp hid
  have hlt : g.depth arg < d := hd ▸ depth_lt_of_mem_args hn harg
  have harg_lt : arg < g.size := Nat.lt_trans (arg_lt_of_node? hn harg) (lt_size_of_node? hn)
  have hmem : g.depth arg ∈ depths := by
    have hall := List.mem_range.mpr (depth_lt_height harg_lt)
    rw [hrange] at hall
    refine (List.mem_append.mp hall).resolve_right fun hlater => ?_
    -- the depths from `d` on are ascending, and that of the argument is smaller
    have hsorted := (List.pairwise_append.mp (hrange ▸ List.pairwise_lt_range)).2.1
    rcases List.mem_cons.mp hlater with heq | hmem
    · omega
    · have := (List.pairwise_cons.mp hsorted).1 _ hmem
      omega
  exact List.mem_flatten.mpr ⟨_, List.mem_map.mpr ⟨_, hmem, rfl⟩, mem_level.mpr ⟨harg_lt, rfl⟩⟩

theorem flatten_map_singleton (list : List Nat) : (list.map fun id => [id]).flatten = list := by
  rw [← List.flatMap_def, List.flatMap_singleton']

theorem IsOrder.isLayering {order : List Nat} (h : g.IsOrder order) :
    g.IsLayering (order.map fun id => [id]) := by
  refine ⟨by rw [flatten_map_singleton]; exact h.perm, fun {past layer rest} horder {id n} hid hn => ?_⟩
  obtain ⟨earlier, later, rfl, rfl, hlater⟩ := List.map_eq_append_iff.mp horder
  obtain ⟨id', later', rfl, rfl, -⟩ := List.map_eq_cons_iff.mp hlater
  rw [flatten_map_singleton]
  cases List.mem_singleton.mp hid
  exact h.args_mem rfl hn

end Graph

end ShardPlan
