import Mathlib.Logic.Relation
import Mathlib.Order.Bounds.Basic
import ShardPlan.Proofs.Network.Levels

/-! # Chains of arguments

A *chain* below a node is a list in which every node is an argument of the one before. A node of depth
`d + 1` has an argument of depth `d` (`exists_arg_of_depth`), and no argument is as deep as its user, so
the depth is the length of the longest chain (`depth_isGreatest`).

It follows that no depth below the height is left out (`level_ne_nil`), that no node reaches another one of
its level (`depth_lt_of_transGen`), and that every layering has as many layers as there are levels, since a
node of depth `d` has `d` layers before its own (`IsLayering.depth_le`). -/

namespace ShardPlan

namespace Graph

variable {g : Graph} {id arg u v d : Nat}

/-! ### Arguments of a given depth -/

theorem foldl_max_mem (list : List Nat) : ∀ b, list.foldl max b ∈ b :: list := by
  induction list with
  | nil => simp
  | cons a list ih =>
    intro b
    have hmem := ih (max b a)
    rw [List.foldl_cons]
    rcases List.mem_cons.mp hmem with h | h
    · rw [h]
      rcases Nat.le_total a b with hle | hle
      · simp [Nat.max_eq_left hle]
      · simp [Nat.max_eq_right hle]
    · simp [h]

theorem Uses.lt_size (h : g.Uses id arg) : arg < g.size := by
  obtain ⟨n, hn, harg⟩ := h
  have := arg_lt_of_node? hn harg
  have := lt_size_of_node? hn
  omega

theorem Uses.depth_lt (h : g.Uses id arg) : g.depth arg < g.depth id := by
  obtain ⟨n, hn, harg⟩ := h
  exact depth_lt_of_mem_args hn harg

theorem exists_node?_of_depth_ne_zero (h : g.depth id ≠ 0) : ∃ n, g.node? id = some n := by
  refine exists_node? (Nat.lt_of_not_le fun hle => h ?_)
  rw [← length_depths] at hle
  rw [depth, List.getD_eq_getElem?_getD, List.getElem?_eq_none hle, Option.getD_none]

/-- **The depth is reached by an argument.** -/
theorem exists_arg_of_depth (h : g.depth id = d + 1) : ∃ arg, g.Uses id arg ∧ g.depth arg = d := by
  obtain ⟨n, hn⟩ := exists_node?_of_depth_ne_zero (g := g) (by omega : g.depth id ≠ 0)
  have hmem := foldl_max_mem (n.args.map fun arg => g.depth arg + 1) 0
  rw [← depth_eq hn, h] at hmem
  rcases List.mem_cons.mp hmem with h | hmem
  · omega
  · obtain ⟨arg, harg, hd⟩ := List.mem_map.mp hmem
    exact ⟨arg, ⟨n, hn, harg⟩, by omega⟩

/-! ### Chains -/

theorem exists_chain (d : Nat) : ∀ {id}, g.depth id = d →
    ∃ chain, (id :: chain).IsChain g.Uses ∧ chain.length = d := by
  induction d with
  | zero => exact fun _ => ⟨[], .singleton _, rfl⟩
  | succ d ih =>
    intro id h
    obtain ⟨arg, huses, hd⟩ := exists_arg_of_depth h
    obtain ⟨chain, hchain, hlength⟩ := ih hd
    exact ⟨arg :: chain, hchain.cons_cons huses, by rw [List.length_cons, hlength]⟩

theorem length_le_depth (chain : List Nat) : ∀ {id}, (id :: chain).IsChain g.Uses →
    chain.length ≤ g.depth id := by
  induction chain with
  | nil => exact fun _ => Nat.zero_le _
  | cons arg chain ih =>
    intro id h
    obtain ⟨huses, hchain⟩ := List.isChain_cons_cons.mp h
    have hrest := ih hchain
    have hlt := huses.depth_lt
    rw [List.length_cons]
    omega

/-- **The depth of a node is the length of the longest chain below it.** -/
theorem depth_isGreatest (id : Nat) :
    IsGreatest {k | ∃ chain, (id :: chain).IsChain g.Uses ∧ chain.length = k} (g.depth id) := by
  refine ⟨exists_chain _ rfl, ?_⟩
  rintro k ⟨chain, hchain, rfl⟩
  exact length_le_depth chain hchain

theorem depth_lt_of_transGen (h : Relation.TransGen g.Uses u v) : g.depth v < g.depth u := by
  induction h with
  | single h => exact h.depth_lt
  | tail _ h ih => exact Nat.lt_trans h.depth_lt ih

/-! ### No level is empty -/

theorem exists_depth_of_le (D : Nat) : ∀ {v}, v < g.size → g.depth v = D → d ≤ D →
    ∃ u < g.size, g.depth u = d := by
  induction D with
  | zero => exact fun {v} hv h hd => ⟨v, hv, by omega⟩
  | succ D ih =>
    intro v hv h hd
    rcases Nat.lt_or_eq_of_le hd with hlt | rfl
    · obtain ⟨arg, huses, harg⟩ := exists_arg_of_depth h
      exact ih huses.lt_size harg (by omega)
    · exact ⟨v, hv, h⟩

theorem exists_depth_succ (h : d < g.height) : ∃ v < g.size, g.depth v + 1 = g.height := by
  have hmem : g.height ∈ 0 :: g.depths.map (· + 1) := foldl_max_mem _ 0
  rcases List.mem_cons.mp hmem with h | hmem
  · omega
  · obtain ⟨D, hD, hheight⟩ := List.mem_map.mp hmem
    obtain ⟨v, hv⟩ := List.mem_iff_getElem?.mp hD
    have hlt : v < g.size := by
      rw [← length_depths]
      exact (List.getElem?_eq_some_iff.mp hv).1
    rw [getElem?_depths hlt] at hv
    cases hv
    exact ⟨v, hlt, hheight⟩

theorem level_ne_nil (h : d < g.height) : g.level d ≠ [] := by
  obtain ⟨v, hv, htop⟩ := exists_depth_succ h
  obtain ⟨u, hu, hd⟩ := exists_depth_of_le (d := d) (g.depth v) hv rfl (by omega)
  exact List.ne_nil_of_mem (mem_level.mpr ⟨hu, hd⟩)

/-! ### Layerings -/

/-- **A node has as many layers before its own** as its depth says. -/
theorem IsLayering.depth_le {layers : List (List Nat)} (h : g.IsLayering layers) (d : Nat) :
    ∀ {past layer rest id}, layers = past ++ layer :: rest → id ∈ layer → g.depth id = d →
      d ≤ past.length := by
  induction d with
  | zero => exact fun _ _ _ => Nat.zero_le _
  | succ d ih =>
    intro past layer rest id hsplit hid hd
    obtain ⟨arg, ⟨n, hn, harg⟩, hd⟩ := exists_arg_of_depth hd
    obtain ⟨layer', hlayer', hmem⟩ := List.mem_flatten.mp (h.args_mem hsplit hid hn arg harg)
    obtain ⟨past', rest', rfl⟩ := List.append_of_mem hlayer'
    have hle : d ≤ past'.length := ih (by rw [hsplit, List.append_assoc, List.cons_append]) hmem hd
    rw [List.length_append, List.length_cons]
    omega

theorem IsLayering.height_le {layers : List (List Nat)} (h : g.IsLayering layers) :
    g.height ≤ layers.length := by
  rcases Nat.eq_zero_or_pos g.height with hzero | hpos
  · omega
  · obtain ⟨v, hv, htop⟩ := exists_depth_succ hpos
    obtain ⟨layer, hlayer, hmem⟩ := List.mem_flatten.mp (h.mem_flatten_iff.mpr hv)
    obtain ⟨past, rest, rfl⟩ := List.append_of_mem hlayer
    have hle := h.depth_le _ rfl hmem rfl
    rw [List.length_append, List.length_cons]
    omega

/-! ### The levels of a graph -/

theorem getElem?_levels_eq_some_iff {level : List Nat} :
    g.levels[d]? = some level ↔ d < g.height ∧ g.level d = level := by
  rw [levels_eq, List.getElem?_map]
  by_cases h : d < g.height
  · simp [h]
  · simp [h]

/-- **The levels of a graph.** Every node is in one level, no level is empty, and each lists its nodes in
ascending order. The position of a level is the length of the longest chains below its nodes, so arguments
are in earlier levels and no two nodes of a level reach each other. No layering has fewer layers. -/
theorem levels_spec (g : Graph) :
    g.levels.flatten.Perm (List.range g.size) ∧
    (∀ d level, g.levels[d]? = some level →
      level ≠ [] ∧ level.Pairwise (· < ·) ∧
      (∀ id ∈ level, IsGreatest {k | ∃ chain, (id :: chain).IsChain g.Uses ∧ chain.length = k} d) ∧
      (∀ id ∈ level, ∀ arg, g.Uses id arg →
        ∃ d' < d, ∃ level', g.levels[d']? = some level' ∧ arg ∈ level') ∧
      ∀ u ∈ level, ∀ v ∈ level, ¬ Relation.TransGen g.Uses u v) ∧
    ∀ layers, g.IsLayering layers → g.levels.length ≤ layers.length := by
  refine ⟨g.order_perm, fun d level hlevel => ?_, fun layers h => ?_⟩
  · obtain ⟨hd, rfl⟩ := getElem?_levels_eq_some_iff.mp hlevel
    refine ⟨level_ne_nil hd, List.pairwise_lt_range.sublist (level_sublist d), fun id hid => ?_,
      fun id hid arg huses => ?_, fun u hu v hv hreach => ?_⟩
    · rw [← (mem_level.mp hid).2]
      exact depth_isGreatest id
    · have hlt := huses.depth_lt
      rw [(mem_level.mp hid).2] at hlt
      exact ⟨g.depth arg, hlt, g.level (g.depth arg),
        getElem?_levels_eq_some_iff.mpr ⟨depth_lt_height huses.lt_size, rfl⟩,
        mem_level.mpr ⟨huses.lt_size, rfl⟩⟩
    · have hlt := depth_lt_of_transGen hreach
      rw [(mem_level.mp hu).2, (mem_level.mp hv).2] at hlt
      exact Nat.lt_irrefl _ hlt
  · have hlength : g.levels.length = g.height := by
      rw [levels_eq, List.length_map, List.length_range]
    rw [hlength]
    exact h.height_le

end Graph

end ShardPlan
