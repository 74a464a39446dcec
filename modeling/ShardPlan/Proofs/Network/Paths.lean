import Mathlib.Logic.Basic
import ShardPlan.Network.ModuleTree

/-! # Paths in a module tree

The names on a path are what `List.splitOn` finds between its dots (`splitDots_eq_splitOn`), so the names on two
paths with a dot between them are those on the first and then those on the second (`pathNames_append_dot`), also
where names are empty. A path that is not empty is followed name by name, so that following two paths in turn is
following both at once (`paths_compose`). The empty path leads nowhere else; it is no path with one empty name. -/

namespace ShardPlan

namespace ModuleTree

/-! ### Names on a path -/

theorem splitDots_eq_cons : ∀ cs : List Char, ∃ pieces, splitDots cs = cs.takeWhile (· ≠ '.') :: pieces
  | [] => ⟨[], rfl⟩
  | c :: cs => by
    obtain ⟨pieces, hpieces⟩ := splitDots_eq_cons cs
    by_cases hc : c = '.'
    · exact ⟨splitDots cs, by simp [splitDots, hc]⟩
    · exact ⟨pieces, by simp [splitDots, hc, hpieces]⟩

theorem splitDots_eq_splitOn : ∀ cs : List Char, splitDots cs = cs.splitOn '.'
  | [] => rfl
  | c :: cs => by
    have hright : (c :: cs).splitOn '.' = if (c == '.') = true then [] :: cs.splitOn '.'
        else (cs.splitOn '.').modifyHead (List.cons c) := List.splitOnP_cons_eq_if_modifyHead ..
    rw [splitDots, splitDots_eq_splitOn cs, hright]
    by_cases hc : c = '.'
    · simp [hc]
    · obtain ⟨pieces, hpieces⟩ := splitDots_eq_cons cs
      rw [if_neg hc, if_neg (by simpa using hc), ← splitDots_eq_splitOn cs, hpieces, List.modifyHead_cons]

/-- **The names on two paths** with a dot between them. -/
theorem pathNames_append_dot (p q : String) :
    pathNames (p ++ "." ++ q) = pathNames p ++ pathNames q := by
  have hlist : (p ++ "." ++ q).toList = p.toList ++ '.' :: q.toList := by simp
  rw [pathNames, pathNames, pathNames, ← List.map_append, hlist]
  simp only [splitDots_eq_splitOn, List.splitOn]
  rw [List.splitOnP_append_cons _ _ (by rfl)]

theorem pathNames_of_notMem {name : String} (h : '.' ∉ name.toList) : pathNames name = [name] := by
  have hpieces : name.toList.splitOn '.' = [name.toList] :=
    List.splitOnP_eq_singleton fun c hc => by
      rw [beq_eq_false_iff_ne]
      rintro rfl
      exact h hc
  rw [pathNames, splitDots_eq_splitOn, hpieces, List.map_singleton, String.ofList_toList]

theorem pathNames_eq_cons (path : String) : ∃ names,
    pathNames path = String.ofList (path.toList.takeWhile (· ≠ '.')) :: names := by
  obtain ⟨pieces, hpieces⟩ := splitDots_eq_cons path.toList
  exact ⟨pieces.map String.ofList, by rw [pathNames, hpieces, List.map_cons]⟩

/-! ### Following paths -/

theorem descendant?_of_ne_empty {path : String} (h : path ≠ "") (m : ModuleTree) :
    m.descendant? path = (pathNames path).foldlM child? m := by
  rw [descendant?, if_neg (by simpa using h)]

theorem child?_withChild (m : ModuleTree) (name : String) (child : ModuleTree) (other : String) :
    (m.withChild name child).child? other = if other = name then some child else m.child? other := by
  rw [child?, withChild, List.lookup_cons]
  by_cases h : other = name
  · simp [h]
  · rw [beq_eq_false_iff_ne.mpr h, if_neg h, child?]

/-- **Two paths in turn** lead where they lead with a dot between them. -/
theorem descendant?_append_dot (m : ModuleTree) {p q : String} (hp : p ≠ "") (hq : q ≠ "") :
    m.descendant? (p ++ "." ++ q) = (m.descendant? p).bind fun found => found.descendant? q := by
  have hne : p ++ "." ++ q ≠ "" := by simp
  rw [descendant?_of_ne_empty hne, descendant?_of_ne_empty hp, pathNames_append_dot, List.foldlM_append]
  refine congrArg (Option.bind _) (funext fun found => ?_)
  rw [descendant?_of_ne_empty hq]

section Child

variable (m child : ModuleTree) {name : String}

theorem descendant?_withChild_self (hne : name ≠ "") (hdot : '.' ∉ name.toList) :
    (m.withChild name child).descendant? name = some child := by
  rw [descendant?_of_ne_empty hne, pathNames_of_notMem hdot, List.foldlM_cons, child?_withChild, if_pos rfl]
  rfl

/-- A child changes nothing for the paths that start with another name. -/
theorem descendant?_withChild_of_ne {path : String} (hne : path ≠ "")
    (hfirst : path.toList.takeWhile (· ≠ '.') ≠ name.toList) :
    (m.withChild name child).descendant? path = m.descendant? path := by
  obtain ⟨names, hnames⟩ := pathNames_eq_cons path
  have hother : String.ofList (path.toList.takeWhile (· ≠ '.')) ≠ name := by
    rintro rfl
    exact hfirst String.toList_ofList.symm
  rw [descendant?_of_ne_empty hne, descendant?_of_ne_empty hne, hnames, List.foldlM_cons, List.foldlM_cons,
    child?_withChild, if_neg hother]

end Child

/-- **Paths compose.** Two paths with a dot between them lead where the second leads from where the first does,
whatever the names on them. Once a child is added, its name leads to it, its name with a path behind it leads
where the path does from the child, and a path that starts with another name leads where it did before. Only the
empty path is left out, which leads to the module itself. -/
theorem paths_compose (m : ModuleTree) :
    (∀ p q : String, p ≠ "" → q ≠ "" →
      m.descendant? (p ++ "." ++ q) = (m.descendant? p).bind fun found => found.descendant? q) ∧
    ∀ (name : String) (child : ModuleTree), name ≠ "" → '.' ∉ name.toList →
      (m.withChild name child).descendant? name = some child ∧
      (∀ q, q ≠ "" → (m.withChild name child).descendant? (name ++ "." ++ q) = child.descendant? q) ∧
      ∀ path, path ≠ "" → path.toList.takeWhile (· ≠ '.') ≠ name.toList →
        (m.withChild name child).descendant? path = m.descendant? path := by
  refine ⟨fun p q hp hq => m.descendant?_append_dot hp hq, fun name child hname hdot => ?_⟩
  have hself := descendant?_withChild_self m child hname hdot
  refine ⟨hself, fun q hq => ?_, fun path hpath hfirst => descendant?_withChild_of_ne m child hpath hfirst⟩
  rw [descendant?_append_dot _ hname hq, hself, Option.bind_some]

/-- Below the child `a` a child without a name is found on the path `a..b`. -/
theorem paths_compose_of_empty_name :
    let leaf : ModuleTree := { kind := "linear" }
    let inner : ModuleTree := ({ kind := "sequence" } : ModuleTree).withChild "b" leaf
    let child : ModuleTree := ({ kind := "sequence" } : ModuleTree).withChild "" inner
    let root : ModuleTree := { kind := "root", children := [("c", leaf)] }
    ("a" ≠ "" ∧ ".b" ≠ "" ∧ '.' ∉ "a".toList ∧ "c" ≠ "" ∧ "c".toList.takeWhile (· ≠ '.') ≠ "a".toList) ∧
      (child.descendant? ".b" = some leaf ∧ child.descendant? "b" = none) ∧
      (root.withChild "a" child).descendant? ("a" ++ "." ++ ".b") =
        ((root.withChild "a" child).descendant? "a").bind (fun found => found.descendant? ".b") ∧
      (root.withChild "a" child).descendant? "a" = some child ∧
      (root.withChild "a" child).descendant? ("a" ++ "." ++ ".b") = child.descendant? ".b" ∧
      (root.withChild "a" child).descendant? "c" = root.descendant? "c" := by
  intro leaf inner child root
  have ha : "a" ≠ "" := by decide
  have hb : ".b" ≠ "" := by decide
  have hdot : '.' ∉ "a".toList := by decide
  have hc : "c" ≠ "" := by decide
  have hfirst : "c".toList.takeWhile (· ≠ '.') ≠ "a".toList := by decide
  obtain ⟨hself, hbelow, hother⟩ := (paths_compose root).2 "a" child ha hdot
  exact ⟨⟨ha, hb, hdot, hc, hfirst⟩, ⟨rfl, rfl⟩, (paths_compose (root.withChild "a" child)).1 "a" ".b" ha hb,
    hself, hbelow ".b" hb, hother "c" hc hfirst⟩

end ModuleTree

end ShardPlan
