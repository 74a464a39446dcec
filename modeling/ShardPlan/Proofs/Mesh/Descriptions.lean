import ShardPlan.Mesh.Description
import ShardPlan.Proofs.Layout.Spelling
import ShardPlan.Proofs.Mesh.Drafts

/-! # Descriptions and drafts of one mesh

A mesh can be made of its shape, or of a description of its axes. Both fill a draft axis by axis
(`Draft.foldl_withName`, `Draft.foldl_withName_withLink`) and differ in its links alone, which are standard
on one side and left out on the other (`Draft.build_withLinks`). Names that repeat are not refused as such:
a draft has only the last of the axes with one name (`Draft.get?_namesOf_eq_some_iff`), so that another axis
is left without any. -/

namespace ShardPlan

theorem defaultAxisName_injective {i j : Nat} (h : defaultAxisName i = defaultAxisName j) : i = j := by
  have hlist := congrArg String.toList h
  simp [defaultAxisName, Nat.toString_eq_repr] at hlist
  exact digits_injective hlist

namespace Draft

/-! ### Drafts filled axis by axis -/

/-- The names of the first `n` axes. A name of several axes stands for the last of them. -/
def namesOf (name : Nat → String) (n : Nat) : SortedMap String Nat :=
  (List.range n).foldl (fun names i => names.insert (name i) i) .empty

/-- The links of the first `n` axes. -/
def linksOf (link : Nat → Link) (n : Nat) : SortedMap Nat Link :=
  (List.range n).foldl (fun links i => links.insert i (link i)) .empty

theorem foldl_withName (name : Nat → String) : ∀ (axes : List Nat) (d : Draft),
    axes.foldl (fun d i => d.withName i (name i)) d =
      { d with names := axes.foldl (fun names i => names.insert (name i) i) d.names }
  | [], _ => rfl
  | axis :: axes, d => by rw [List.foldl_cons, foldl_withName name axes]; rfl

theorem foldl_withName_withLink (name : Nat → String) (link : Nat → Link) :
    ∀ (axes : List Nat) (d : Draft),
      axes.foldl (fun d i => (d.withName i (name i)).withLink i (link i)) d =
        { d with
          names := axes.foldl (fun names i => names.insert (name i) i) d.names
          links := axes.foldl (fun links i => links.insert i (link i)) d.links }
  | [], _ => rfl
  | axis :: axes, d => by rw [List.foldl_cons, foldl_withName_withLink name link axes]; rfl

theorem get?_namesOf_eq_some_iff {name : Nat → String} {n : Nat} {key : String} {i : Nat} :
    (namesOf name n).get? key = some i ↔ i < n ∧ name i = key ∧ ∀ j < n, name j = key → j ≤ i := by
  induction n with
  | zero => simp [namesOf]
  | succ n ih =>
    have hstep : namesOf name (n + 1) = (namesOf name n).insert (name n) n := by
      rw [namesOf, List.range_succ, List.foldl_append]
      rfl
    rw [hstep, SortedMap.get?_insert]
    split_ifs with hkey
    · rw [Option.some.injEq]
      constructor
      · rintro rfl
        exact ⟨Nat.lt_succ_self _, hkey, fun j hj _ => Nat.lt_succ_iff.mp hj⟩
      · rintro ⟨hi, -, hlast⟩
        exact Nat.le_antisymm (hlast n (Nat.lt_succ_self n) hkey) (Nat.lt_succ_iff.mp hi)
    · rw [ih]
      constructor
      · rintro ⟨hi, hname, hlast⟩
        refine ⟨by omega, hname, fun j hj hj' => hlast j ?_ hj'⟩
        have hne : j ≠ n := by rintro rfl; exact hkey hj'
        omega
      · rintro ⟨hi, hname, hlast⟩
        have hne : i ≠ n := by rintro rfl; exact hkey hname
        exact ⟨by omega, hname, fun j hj => hlast j (by omega)⟩

theorem get?_linksOf (link : Nat → Link) (n i : Nat) :
    (linksOf link n).get? i = if i < n then some (link i) else none := by
  induction n with
  | zero => rfl
  | succ n ih =>
    have hstep : linksOf link (n + 1) = (linksOf link n).insert n (link n) := by
      rw [linksOf, List.range_succ, List.foldl_append]
      rfl
    rw [hstep, SortedMap.get?_insert, ih]
    grind

/-! ### Links that make no difference -/

theorem assemble_congr {links links' : SortedMap Nat Link}
    (h : ∀ axis, (links.get? axis).getD .standard = (links'.get? axis).getD .standard) (i : Nat) :
    ∀ (names : List String) (shape : List Nat), assemble links i names shape = assemble links' i names shape := by
  intro names
  induction names generalizing i with
  | nil => intro shape; rfl
  | cons name names ih =>
    intro shape
    cases shape with
    | nil => rfl
    | cons size shape => rw [assemble, assemble, ih, h]

theorem build_withLinks {d : Draft} {links : SortedMap Nat Link}
    (hd : linkError? d.shape d.links.entries = none) (hlinks : linkError? d.shape links.entries = none)
    (h : ∀ axis, (links.get? axis).getD .standard = (d.links.get? axis).getD .standard) :
    ({ d with links } : Draft).build = d.build := by
  unfold build
  simp only [hd, hlinks, assemble_congr h]

/-- The draft of the devices below `count`, with names and links for all axes. -/
def filled (shape : List Nat) (count : Nat) (name : Nat → String) (link : Nat → Link) : Draft where
  devices := List.range count
  shape := shape
  names := namesOf name shape.length
  links := linksOf link shape.length

section Filled

variable {shape : List Nat} {count : Nat} {name : Nat → String} {link : Nat → Link}

theorem isWellFormed_filled_iff : (filled shape count name link).IsWellFormed ↔
    (∀ i < shape.length, ∀ j < shape.length, name i = name j → i = j) ∧ 0 ∉ shape ∧
      count = Size.volume shape ∧
      ∀ i < shape.length, IsPrice (link i).alpha ∧ IsPrice (link i).beta := by
  have hlinks : ∀ axis l, (filled shape count name link).links.get? axis = some l ↔
      axis < shape.length ∧ link axis = l := fun axis l => by
    rw [filled, get?_linksOf, Option.ite_none_right_eq_some, Option.some.injEq]
  constructor
  · intro h
    refine ⟨fun i hi j hj hij => ?_, h.noEmptyAxis, ?_, fun i hi => ?_⟩
    · obtain ⟨_, hname⟩ := h.named i hi
      obtain ⟨_, rfl, hlast⟩ := get?_namesOf_eq_some_iff.mp hname
      obtain ⟨_, hname'⟩ := h.named j hj
      obtain ⟨_, rfl, hlast'⟩ := get?_namesOf_eq_some_iff.mp hname'
      exact Nat.le_antisymm (hlast' i hi hij) (hlast j hj hij.symm)
    · have hlength := h.length_devices
      rwa [filled, List.length_range] at hlength
    · exact h.isPrice i (link i) ((hlinks i _).mpr ⟨hi, rfl⟩)
  · rintro ⟨hinj, hempty, hcount, hprice⟩
    refine ⟨fun key axis h => (get?_namesOf_eq_some_iff.mp h).1, ?_, fun axis haxis => ?_, hempty,
      by rw [filled, List.length_range, hcount], fun axis l h => ((hlinks axis l).mp h).1, ?_⟩
    · intro key key' axis h h'
      obtain ⟨-, rfl, -⟩ := get?_namesOf_eq_some_iff.mp h
      obtain ⟨-, rfl, -⟩ := get?_namesOf_eq_some_iff.mp h'
      rfl
    · exact ⟨name axis, get?_namesOf_eq_some_iff.mpr
        ⟨haxis, rfl, fun j hj hij => (hinj j hj axis haxis hij).le⟩⟩
    · intro axis l h
      obtain ⟨haxis, rfl⟩ := (hlinks axis l).mp h
      exact hprice axis haxis

/-- **The mesh of a filled draft** finds every axis by its name, with its link. -/
theorem lookups_of_build_filled {mesh : Mesh} (h : (filled shape count name link).build = .ok mesh)
    (hinj : ∀ i < shape.length, ∀ j < shape.length, name i = name j → i = j) :
    ∀ i < shape.length, mesh.axisNamed? (name i) = some i ∧ mesh.link? i = some (link i) := by
  intro i hi
  have hyields := yields_of_build h
  constructor
  · rw [hyields.axisNamed?]
    exact get?_namesOf_eq_some_iff.mpr ⟨hi, rfl, fun j hj hij => (hinj j hj i hi hij).le⟩
  · have hlink : (filled shape count name link).links.get? i = some (link i) := by
      rw [filled, get?_linksOf, if_pos hi]
    have hi' : i < (filled shape count name link).shape.length := hi
    rw [hyields.link?, if_pos hi', hlink, Option.getD_some]

end Filled

end Draft

/-! ### Meshes of a shape -/

theorem isPrice_standard : IsPrice (Link.standard : Link).alpha ∧ IsPrice (Link.standard : Link).beta := by
  refine ⟨⟨?_, ?_⟩, ?_, ?_⟩ <;> decide +kernel

theorem Mesh.ofShape_eq (shape : List Nat) :
    Mesh.ofShape shape = Outcome.ofChecked (Size.product shape) >>= fun count =>
      (Draft.filled shape count defaultAxisName fun _ => .standard).build := by
  unfold Mesh.ofShape
  refine bind_congr fun count => ?_
  dsimp only
  rw [Draft.foldl_withName]
  refine (Draft.build_withLinks rfl (Draft.linkError?_eq_none_iff.mpr fun e he => ?_) fun axis => ?_).symm
  · have hget := SortedMap.get?_eq_some_iff.mpr he
    rw [Draft.get?_linksOf, Option.ite_none_right_eq_some] at hget
    obtain ⟨hlt, heq⟩ := hget
    exact ⟨hlt, Option.some.inj heq ▸ Link.isUsable_iff.mpr isPrice_standard⟩
  · rw [Draft.get?_linksOf]
    split_ifs
    · rfl
    · rfl

namespace MeshDescription

theorem entryError?_eq_none_iff {c : MeshDescription} : c.entryError? = none ↔
    (c.names = [] ∨ c.names.length = c.shape.length) ∧
      (c.alpha = [] ∨ c.alpha.length = c.shape.length) ∧
      (c.beta = [] ∨ c.beta.length = c.shape.length) := by
  have hlist : ∀ n : Nat, (n != 0 && n != c.shape.length) = false ↔ n = 0 ∨ n = c.shape.length := by
    intro n
    simp
    tauto
  simp only [entryError?, Option.map_eq_none_iff, List.find?_eq_none, List.forall_mem_cons,
    Bool.not_eq_true, hlist, List.length_eq_zero_iff]
  simp

theorem build_eq {c : MeshDescription} (h : c.entryError? = none) :
    c.build = Outcome.ofChecked (Size.product c.shape) >>= fun count =>
      (Draft.filled c.shape count c.axisName c.axisLink).build := by
  unfold build
  rw [h]
  refine bind_congr fun count => ?_
  dsimp only
  rw [Draft.foldl_withName_withLink]
  rfl

theorem of_build {c : MeshDescription} {mesh : Mesh} (h : c.build = .ok mesh) :
    c.entryError? = none ∧
      (Draft.filled c.shape (Size.volume c.shape) c.axisName c.axisLink).build = .ok mesh := by
  have hentry : c.entryError? = none := by
    unfold build at h
    split at h
    · exact nomatch h
    · assumption
  rw [build_eq hentry] at h
  obtain ⟨count, hcount, h⟩ := bind_eq_ok_iff.mp h
  rw [Size.volume_of_product (ofChecked_eq_ok_iff.mp hcount)] at h
  exact ⟨hentry, h⟩

/-! ### Well-formed descriptions -/

/-- **The description of a mesh.** -/
structure IsWellFormed (c : MeshDescription) : Prop where
  names : c.names = [] ∨ c.names.length = c.shape.length
  alpha : c.alpha = [] ∨ c.alpha.length = c.shape.length
  beta : c.beta = [] ∨ c.beta.length = c.shape.length
  nodup_names : c.names.Nodup
  noEmptyAxis : 0 ∉ c.shape
  isPrice_alpha : ∀ x ∈ c.alpha, IsPrice x
  isPrice_beta : ∀ x ∈ c.beta, IsPrice x

/-- What holds of the entries for all axes, if the list has one for each of them or none. -/
theorem forall_getD_iff {P : Float → Prop} {list : List Float} {n : Nat} {standard : Float}
    (h : list = [] ∨ list.length = n) (hstandard : P standard) :
    (∀ i < n, P ((list[i]?).getD standard)) ↔ ∀ x ∈ list, P x := by
  rcases h with rfl | rfl
  · simp [hstandard]
  · constructor
    · intro h x hx
      obtain ⟨i, hi, rfl⟩ := List.getElem_of_mem hx
      have hentry := h i hi
      rwa [List.getElem?_eq_getElem hi, Option.getD_some] at hentry
    · intro h i hi
      rw [List.getElem?_eq_getElem hi, Option.getD_some]
      exact h _ (List.getElem_mem hi)

theorem axisName_inj_iff {c : MeshDescription}
    (h : c.names = [] ∨ c.names.length = c.shape.length) :
    (∀ i < c.shape.length, ∀ j < c.shape.length, c.axisName i = c.axisName j → i = j) ↔
      c.names.Nodup := by
  rcases h with h | h
  · rw [h]
    refine iff_of_true (fun i _ j _ hij => defaultAxisName_injective ?_) List.nodup_nil
    simpa [axisName, h] using hij
  · have hname : ∀ i (hi : i < c.names.length), c.axisName i = c.names[i] := fun i hi => by
      rw [axisName, List.getElem?_eq_getElem hi, Option.getD_some]
    rw [← h, List.nodup_iff_injective_getElem]
    constructor
    · rintro hinj ⟨i, hi⟩ ⟨j, hj⟩ hij
      exact Fin.ext (hinj i hi j hj (by rw [hname i hi, hname j hj]; exact hij))
    · intro hinj i hi j hj hij
      rw [hname i hi, hname j hj] at hij
      exact Fin.mk.inj (@hinj ⟨i, hi⟩ ⟨j, hj⟩ hij)

theorem exists_build_iff {c : MeshDescription} (hfits : Size.volume c.shape < wordLimit) :
    (∃ mesh, c.build = .ok mesh) ↔ c.IsWellFormed := by
  by_cases hentry : c.entryError? = none
  · obtain ⟨hnames, halpha, hbeta⟩ := entryError?_eq_none_iff.mp hentry
    have hprices : (∀ i < c.shape.length, IsPrice (c.axisLink i).alpha ∧ IsPrice (c.axisLink i).beta) ↔
        (∀ x ∈ c.alpha, IsPrice x) ∧ ∀ x ∈ c.beta, IsPrice x := by
      rw [forall₂_and, ← forall_getD_iff halpha isPrice_standard.1,
        ← forall_getD_iff hbeta isPrice_standard.2]
      rfl
    have hdraft : ∀ count, (∃ mesh, (Draft.filled c.shape count c.axisName c.axisLink).build = .ok mesh) ↔
        c.names.Nodup ∧ 0 ∉ c.shape ∧ count = Size.volume c.shape ∧
          (∀ x ∈ c.alpha, IsPrice x) ∧ ∀ x ∈ c.beta, IsPrice x := fun count => by
      rw [← axisName_inj_iff hnames, ← hprices, ← Draft.isWellFormed_filled_iff]
      exact Draft.exists_build_iff hfits
    constructor
    · rintro ⟨mesh, h⟩
      obtain ⟨hnodup, hempty, -, hpriceA, hpriceB⟩ := (hdraft _).mp ⟨mesh, (of_build h).2⟩
      exact ⟨hnames, halpha, hbeta, hnodup, hempty, hpriceA, hpriceB⟩
    · intro h
      rw [build_eq hentry, Size.product_eq_ok (Size.pos_of_zero_notMem h.noEmptyAxis) hfits]
      exact (hdraft _).mpr ⟨h.nodup_names, h.noEmptyAxis, rfl, h.isPrice_alpha, h.isPrice_beta⟩
  · exact iff_of_false (fun ⟨mesh, h⟩ => hentry (of_build h).1)
      fun h => hentry (entryError?_eq_none_iff.mpr ⟨h.names, h.alpha, h.beta⟩)

theorem ofShape_eq_build (shape : List Nat) :
    Mesh.ofShape shape = ({ shape } : MeshDescription).build := by
  rw [Mesh.ofShape_eq, build_eq rfl]
  rfl

theorem lookups_of_build {c : MeshDescription} {mesh : Mesh} (h : c.build = .ok mesh) :
    ∀ i < c.shape.length,
      mesh.axisNamed? (c.axisName i) = some i ∧ mesh.link? i = some (c.axisLink i) := by
  obtain ⟨hentry, hdraft⟩ := of_build h
  obtain ⟨hinj, -⟩ := Draft.isWellFormed_filled_iff.mp (Draft.isWellFormed_of_build hdraft)
  exact Draft.lookups_of_build_filled hdraft hinj

/-- **A shape and a description make the same mesh**, or fail alike. A description is built exactly if it is
well-formed, and then every axis is found by its name and has the link of the description. -/
theorem constructors_agree :
    (∀ shape : List Nat, Mesh.ofShape shape = ({ shape } : MeshDescription).build ∧
      ∀ mesh, Mesh.ofShape shape = .ok mesh →
        mesh.shape = shape ∧ mesh.devices = List.range (Size.volume shape) ∧
          ∀ i < shape.length, mesh.axisNamed? s!"x{i}" = some i ∧ mesh.link? i = some ⟨1.0, 1.0⟩) ∧
    ∀ c : MeshDescription, Size.volume c.shape < wordLimit →
      ((∃ mesh, c.build = .ok mesh) ↔ c.IsWellFormed) ∧
      ∀ mesh, c.build = .ok mesh → ∀ i < c.shape.length,
        mesh.axisNamed? ((c.names[i]?).getD s!"x{i}") = some i ∧
          mesh.link? i = some ⟨(c.alpha[i]?).getD 1.0, (c.beta[i]?).getD 1.0⟩ := by
  refine ⟨fun shape => ⟨ofShape_eq_build shape, fun mesh h => ?_⟩,
    fun c hfits => ⟨exists_build_iff hfits, fun mesh => lookups_of_build⟩⟩
  rw [ofShape_eq_build] at h
  have hyields := Draft.yields_of_build (of_build h).2
  exact ⟨hyields.shape, hyields.devices, lookups_of_build h⟩

/-- Two rows of three devices, with names and latencies of their own. -/
def named : MeshDescription := { shape := [2, 3], names := ["data", "model"], alpha := [0.5, 0.0] }

theorem isWellFormed_named : named.IsWellFormed := by
  refine ⟨.inr rfl, .inr rfl, .inl rfl, by decide, by decide, ?_, nofun⟩
  simp only [named, List.forall_mem_cons]
  exact ⟨⟨by decide +kernel, by decide +kernel⟩, ⟨by decide +kernel, by decide +kernel⟩, nofun⟩

theorem constructors_agree_named : Size.volume named.shape < wordLimit ∧
    ∃ mesh, named.build = .ok mesh ∧ mesh.axisNamed? "model" = some 1 ∧
      mesh.link? 0 = some ⟨0.5, 1.0⟩ ∧ mesh.link? 1 = some ⟨0.0, 1.0⟩ := by
  have hfits : Size.volume named.shape < wordLimit := by decide
  obtain ⟨hiff, hlookups⟩ := constructors_agree.2 named hfits
  obtain ⟨mesh, hmesh⟩ := hiff.mpr isWellFormed_named
  exact ⟨hfits, mesh, hmesh, (hlookups mesh hmesh 1 (by decide)).1, (hlookups mesh hmesh 0 (by decide)).2,
    (hlookups mesh hmesh 1 (by decide)).2⟩

end MeshDescription

end ShardPlan
