import ShardPlan.Mesh.Draft
import ShardPlan.Proofs.Arithmetic.Checked
import ShardPlan.Proofs.Arithmetic.FloatSums

/-! # Drafts that are meshes

A draft is built exactly if its names are a bijection with its axes, its devices fill the shape, and its
links lie on axes and have prices that can be paid (`Draft.IsWellFormed`). The names are checked one after
the other: each has to stand for an axis that was not met before (`nameError?_eq_none_iff`), and then every
axis has a name exactly if there are as many names as axes (`exists_mapM_nameOf?_iff_size`). In which order
they are met makes no difference (`accepted_in_any_order`). The mesh that is built finds the axis of every
name and the name of every axis (`Draft.Yields`). -/

namespace ShardPlan

/-! ### Looking up axes by name -/

namespace Mesh

variable {K : Type}

/-- **Names and axes of a mesh** are found from each other, since no two axes have one name. -/
theorem axisNamed?_eq_some_iff {mesh : Mesh K} {name : String} {axis : Nat} :
    mesh.axisNamed? name = some axis ↔ mesh.axisName? axis = some name := by
  rw [axisNamed?, List.findIdx?_eq_some_iff_getElem, axisName?, Option.map_eq_some_iff]
  constructor
  · rintro ⟨hlt, hname, -⟩
    exact ⟨mesh.axes[axis], List.getElem?_eq_getElem hlt, beq_iff_eq.mp hname⟩
  · rintro ⟨a, ha, rfl⟩
    obtain ⟨hlt, rfl⟩ := List.getElem?_eq_some_iff.mp ha
    have hinj := List.nodup_iff_injective_getElem.mp mesh.names_nodup
    refine ⟨hlt, beq_self_eq_true _, fun i hi heq => ?_⟩
    have hname : mesh.axes[i].name = mesh.axes[axis].name := beq_iff_eq.mp heq
    have hsame := @hinj ⟨i, by simpa using hi.trans hlt⟩ ⟨axis, by simpa using hlt⟩ (by simpa using hname)
    exact hi.ne (Fin.mk.inj hsame)

end Mesh

/-! ### Prices -/

/-- **A price that can be paid**: a finite number that is not negative. -/
def IsPrice (x : Float) : Prop := x.isFinite = true ∧ 0.0 ≤ x

theorem isPrice_iff {x : Float} : IsPrice x ↔ x.isFinite = true ∧ ¬ x < 0.0 :=
  and_congr_right fun hx => (not_lt_zero_iff hx).symm

theorem Link.isUsable_iff {link : Link} :
    link.isUsable = true ↔ IsPrice link.alpha ∧ IsPrice link.beta := by
  simp only [isUsable, isPrice_iff, Bool.and_eq_true, Bool.not_eq_true', decide_eq_false_iff_not]
  tauto

namespace Draft

/-! ### The checks -/

theorem nameError?_eq_none_iff {shape : List Nat} : ∀ {axes seen : List Nat},
    nameError? shape seen axes = none ↔
      (∀ axis ∈ axes, axis < shape.length ∧ axis ∉ seen) ∧ axes.Nodup
  | [], seen => by simp [nameError?]
  | axis :: rest, seen => by
    rw [nameError?, List.forall_mem_cons, List.nodup_cons]
    split_ifs with hle hseen
    · exact ⟨nofun, fun h => absurd h.1.1.1 (Nat.not_lt.mpr hle)⟩
    · exact ⟨nofun, fun h => absurd (List.contains_iff_mem.mp hseen) h.1.1.2⟩
    · rw [List.contains_iff_mem] at hseen
      rw [nameError?_eq_none_iff]
      simp only [List.mem_cons, not_or]
      constructor
      · rintro ⟨hrest, hnodup⟩
        exact ⟨⟨⟨Nat.lt_of_not_le hle, hseen⟩, fun other hother =>
          ⟨(hrest other hother).1, (hrest other hother).2.2⟩⟩,
          fun hmem => (hrest axis hmem).2.1 rfl, hnodup⟩
      · rintro ⟨⟨-, hrest⟩, hnew, hnodup⟩
        exact ⟨fun other hother => ⟨(hrest other hother).1,
          fun heq => hnew (heq ▸ hother), (hrest other hother).2⟩, hnodup⟩

theorem linkError?_eq_none_iff {shape : List Nat} : ∀ {links : List (Nat × Link)},
    linkError? shape links = none ↔ ∀ e ∈ links, e.1 < shape.length ∧ e.2.isUsable = true
  | [] => by simp [linkError?]
  | (axis, link) :: rest => by
    rw [linkError?, List.forall_mem_cons, ← linkError?_eq_none_iff]
    split_ifs with hle husable
    · exact ⟨nofun, fun h => absurd h.1.1 (Nat.not_lt.mpr hle)⟩
    · exact (and_iff_right ⟨Nat.lt_of_not_le hle, husable⟩).symm
    · exact ⟨nofun, fun h => absurd h.1.2 husable⟩

/-- **The order of names and links** makes no difference to whether they are accepted. -/
theorem accepted_in_any_order {shape axes axes' : List Nat} {links links' : List (Nat × Link)}
    (haxes : axes.Perm axes') (hlinks : links.Perm links') :
    (nameError? shape [] axes = none ↔ nameError? shape [] axes' = none) ∧
      (linkError? shape links = none ↔ linkError? shape links' = none) := by
  constructor
  · rw [nameError?_eq_none_iff, nameError?_eq_none_iff, haxes.nodup_iff]
    simp only [haxes.mem_iff]
  · rw [linkError?_eq_none_iff, linkError?_eq_none_iff]
    simp only [hlinks.mem_iff]

/-! ### What is built -/

/-- **The checks that a draft passes**, in their order. -/
structure Passes (d : Draft) (names : List String) : Prop where
  nameError? : nameError? d.shape [] d.names.values = none
  mapM_nameOf? : (List.range d.shape.length).mapM (nameOf? d.names) = some names
  noEmptyAxis : 0 ∉ d.shape
  product : Size.product d.shape = .ok d.devices.length
  linkError? : linkError? d.shape d.links.entries = none

theorem of_build {d : Draft} {mesh : Mesh} (h : d.build = .ok mesh) : ∃ names, d.Passes names ∧
    mesh.devices = d.devices ∧ mesh.axes = assemble d.links 0 names d.shape := by
  unfold build at h
  split at h
  · exact nomatch h
  next hname =>
  split at h
  · exact nomatch h
  next names hnames =>
  split_ifs at h with hempty
  · exact nomatch h
  split at h
  · exact nomatch h
  next count hcount =>
  split_ifs at h with hdevices
  · split at h
    · exact nomatch h
    next hlink =>
    cases h
    exact ⟨names, ⟨hname, hnames, hempty, hdevices ▸ hcount, hlink⟩, rfl, rfl⟩
  · exact nomatch h

theorem exists_build {d : Draft} {names : List String} (h : d.Passes names) :
    ∃ mesh, d.build = .ok mesh := by
  obtain ⟨hname, hnames, hempty, hcount, hlink⟩ := h
  unfold build
  split
  next e he => exact nomatch hname.symm.trans he
  split
  next hnone => exact nomatch hnames.symm.trans hnone
  rw [dif_neg hempty]
  split
  next f hf => exact nomatch hcount.symm.trans hf
  next count hok =>
  rw [dif_pos (Except.ok.inj (hcount.symm.trans hok))]
  split
  next e he => exact nomatch hlink.symm.trans he
  exact ⟨_, rfl⟩

/-! ### Names and axes -/

section Names

variable {names : SortedMap String Nat}

theorem nodup_values_iff : names.values.Nodup ↔ ∀ name name' axis,
    names.get? name = some axis → names.get? name' = some axis → name = name' := by
  have hnodup : names.entries.Nodup := names.nodup_keys.of_map
  rw [SortedMap.values, List.nodup_map_iff_inj_on hnodup]
  simp only [SortedMap.get?_eq_some_iff]
  constructor
  · exact fun h name name' axis hname hname' => congrArg Prod.fst (h _ hname _ hname' rfl)
  · rintro h ⟨name, axis⟩ hname ⟨name', axis'⟩ hname' rfl
    rw [h name name' _ hname hname']

theorem exists_nameOf?_iff {axis : Nat} :
    (∃ name, nameOf? names axis = some name) ↔ ∃ name, names.get? name = some axis := by
  constructor
  · exact fun ⟨name, h⟩ => ⟨name, get?_of_nameOf? h⟩
  · rintro ⟨name, h⟩
    have hsome : (names.entries.find? fun e => e.2 == axis).isSome = true :=
      List.find?_isSome.mpr ⟨(name, axis), SortedMap.get?_eq_some_iff.mp h, beq_self_eq_true axis⟩
    obtain ⟨e, he⟩ := Option.isSome_iff_exists.mp hsome
    exact ⟨e.1, by rw [nameOf?, he]; rfl⟩

theorem nameOf?_eq_some_iff (hnodup : names.values.Nodup) {axis : Nat} {name : String} :
    nameOf? names axis = some name ↔ names.get? name = some axis := by
  refine ⟨get?_of_nameOf?, fun h => ?_⟩
  obtain ⟨first, hfirst⟩ := exists_nameOf?_iff.mpr ⟨name, h⟩
  rwa [nodup_values_iff.mp hnodup name first axis h (get?_of_nameOf? hfirst)]

/-- **Names of different axes** name all of them exactly if there are as many names as axes. -/
theorem exists_mapM_nameOf?_iff_size {shape : List Nat}
    (h : nameError? shape [] names.values = none) :
    (∃ found, (List.range shape.length).mapM (nameOf? names) = some found) ↔
      names.size = shape.length := by
  obtain ⟨hlt, hnodup⟩ := nameError?_eq_none_iff.mp h
  have hle : names.values ⊆ List.range shape.length := fun axis haxis =>
    List.mem_range.mpr (hlt axis haxis).1
  have hperm : names.values.Subperm (List.range shape.length) := List.subperm_of_subset hnodup hle
  have hsize : names.size = names.values.length := (List.length_map _).symm
  simp only [exists_mapM_eq_some_iff, exists_nameOf?_iff, ← SortedMap.mem_values]
  constructor
  · intro hall
    have hge := (List.subperm_of_subset List.nodup_range hall).length_le
    rw [hsize, ← List.length_range (n := shape.length)]
    exact Nat.le_antisymm hperm.length_le hge
  · intro hcount axis haxis
    have hge : (List.range shape.length).length ≤ names.values.length := by
      rw [List.length_range, ← hsize, hcount]
    exact (hperm.perm_of_length_le hge).mem_iff.mpr haxis

end Names

/-! ### Well-formed drafts -/

/-- **The draft of a mesh.** -/
structure IsWellFormed (d : Draft) : Prop where
  /-- Every name stands for an axis. -/
  name_lt : ∀ name axis, d.names.get? name = some axis → axis < d.shape.length
  /-- No two names stand for the same axis. -/
  name_inj : ∀ name name' axis,
    d.names.get? name = some axis → d.names.get? name' = some axis → name = name'
  /-- Every axis has a name. -/
  named : ∀ axis < d.shape.length, ∃ name, d.names.get? name = some axis
  noEmptyAxis : 0 ∉ d.shape
  /-- The devices fill the shape. -/
  length_devices : d.devices.length = Size.volume d.shape
  /-- Every link is the link of an axis. -/
  link_lt : ∀ axis link, d.links.get? axis = some link → axis < d.shape.length
  isPrice : ∀ axis link, d.links.get? axis = some link → IsPrice link.alpha ∧ IsPrice link.beta

theorem Passes.isWellFormed {d : Draft} {names : List String} (h : d.Passes names) :
    d.IsWellFormed := by
  obtain ⟨hlt, hnodup⟩ := nameError?_eq_none_iff.mp h.nameError?
  have hnamed := exists_mapM_eq_some_iff.mp ⟨names, h.mapM_nameOf?⟩
  have hlink := linkError?_eq_none_iff.mp h.linkError?
  exact {
    name_lt := fun name axis hname => (hlt axis (SortedMap.mem_values.mpr ⟨name, hname⟩)).1
    name_inj := nodup_values_iff.mp hnodup
    named := fun axis haxis => exists_nameOf?_iff.mp (hnamed axis (List.mem_range.mpr haxis))
    noEmptyAxis := h.noEmptyAxis
    length_devices := Size.volume_of_product h.product
    link_lt := fun axis link hget => (hlink _ (SortedMap.get?_eq_some_iff.mp hget)).1
    isPrice := fun axis link hget =>
      Link.isUsable_iff.mp (hlink _ (SortedMap.get?_eq_some_iff.mp hget)).2 }

theorem IsWellFormed.exists_passes {d : Draft} (h : d.IsWellFormed)
    (hfits : Size.volume d.shape < wordLimit) : ∃ names, d.Passes names := by
  have hnamed : ∀ axis ∈ List.range d.shape.length, ∃ name, nameOf? d.names axis = some name :=
    fun axis haxis => exists_nameOf?_iff.mpr (h.named axis (List.mem_range.mp haxis))
  obtain ⟨names, hnames⟩ := exists_mapM_eq_some_iff.mpr hnamed
  refine ⟨names, ?_, hnames, h.noEmptyAxis, ?_, ?_⟩
  · refine nameError?_eq_none_iff.mpr ⟨fun axis haxis => ?_, nodup_values_iff.mpr h.name_inj⟩
    obtain ⟨name, hname⟩ := SortedMap.mem_values.mp haxis
    exact ⟨h.name_lt name axis hname, List.not_mem_nil⟩
  · rw [Size.product_eq_ok (Size.pos_of_zero_notMem h.noEmptyAxis) hfits, h.length_devices]
  · refine linkError?_eq_none_iff.mpr fun e he => ?_
    have hget : d.links.get? e.1 = some e.2 := SortedMap.get?_eq_some_iff.mpr he
    exact ⟨h.link_lt e.1 e.2 hget, Link.isUsable_iff.mpr (h.isPrice e.1 e.2 hget)⟩

theorem isWellFormed_of_build {d : Draft} {mesh : Mesh} (h : d.build = .ok mesh) :
    d.IsWellFormed := by
  obtain ⟨names, hpasses, -⟩ := of_build h
  exact hpasses.isWellFormed

theorem exists_build_iff {d : Draft} (hfits : Size.volume d.shape < wordLimit) :
    (∃ mesh, d.build = .ok mesh) ↔ d.IsWellFormed := by
  refine ⟨fun ⟨_, h⟩ => isWellFormed_of_build h, fun h => ?_⟩
  obtain ⟨names, hpasses⟩ := h.exists_passes hfits
  exact exists_build hpasses

/-! ### The mesh of a draft -/

/-- **The mesh of a draft** has its shape, devices, names and links. -/
structure Yields (d : Draft) (mesh : Mesh) : Prop where
  shape : mesh.shape = d.shape
  devices : mesh.devices = d.devices
  /-- A name is found exactly if the draft has it, and at its axis. -/
  axisNamed? : ∀ name, mesh.axisNamed? name = d.names.get? name
  /-- Names and axes are found from each other. -/
  inverse : ∀ name axis, mesh.axisNamed? name = some axis ↔ mesh.axisName? axis = some name
  /-- Nothing but the axes of the shape has a name. -/
  axisName?_eq_none : ∀ axis, mesh.axisName? axis = none ↔ d.shape.length ≤ axis
  link? : ∀ axis, mesh.link? axis =
    if axis < d.shape.length then some ((d.links.get? axis).getD .standard) else none

theorem map_link_assemble (links : SortedMap Nat Link) (i : Nat) {names : List String}
    {shape : List Nat} (h : names.length = shape.length) :
    (assemble links i names shape).map Axis.link =
      (List.range' i shape.length).map fun axis => (links.get? axis).getD .standard := by
  induction names generalizing i shape with
  | nil =>
    cases shape with
    | nil => rfl
    | cons => exact nomatch h
  | cons name names ih =>
    cases shape with
    | nil => exact nomatch h
    | cons size shape =>
      rw [assemble, List.map_cons, ih (i + 1) (Nat.succ.inj h), List.length_cons, List.range'_succ,
        List.map_cons]

theorem Passes.getElem?_eq_some_iff {d : Draft} {names : List String} (h : d.Passes names)
    {axis : Nat} {name : String} : names[axis]? = some name ↔ d.names.get? name = some axis := by
  obtain ⟨hlt, hnodup⟩ := nameError?_eq_none_iff.mp h.nameError?
  have hfound := congrArg (fun list => list[axis]?) (mapM_eq_some_iff.mp h.mapM_nameOf?)
  simp only [List.getElem?_map] at hfound
  rw [← nameOf?_eq_some_iff hnodup]
  rcases Nat.lt_or_ge axis d.shape.length with haxis | haxis
  · rw [List.getElem?_range haxis, Option.map_some] at hfound
    cases hat : names[axis]? with
    | none => rw [hat] at hfound; exact nomatch hfound
    | some found => rw [hat] at hfound; rw [Option.some.inj hfound]
  · have hnone : names[axis]? = none := by
      rwa [List.getElem?_eq_none_iff, length_of_mapM_nameOf? h.mapM_nameOf?, List.length_range]
    rw [hnone]
    refine ⟨nofun, fun hname => ?_⟩
    have hmem := SortedMap.mem_values.mpr ⟨name, get?_of_nameOf? hname⟩
    exact absurd (hlt axis hmem).1 (Nat.not_lt.mpr haxis)

theorem yields_of_build {d : Draft} {mesh : Mesh} (h : d.build = .ok mesh) : d.Yields mesh := by
  obtain ⟨names, hpasses, hdevices, haxes⟩ := of_build h
  have hlength : names.length = d.shape.length := by
    rw [length_of_mapM_nameOf? hpasses.mapM_nameOf?, List.length_range]
  have hname : ∀ axis, mesh.axisName? axis = names[axis]? := fun axis => by
    rw [Mesh.axisName?, ← List.getElem?_map, haxes, map_name_assemble _ _ hlength]
  have hlink : ∀ axis, mesh.link? axis = ((List.range d.shape.length)[axis]?).map fun axis =>
      (d.links.get? axis).getD .standard := fun axis => by
    rw [Mesh.link?, ← List.getElem?_map, haxes, map_link_assemble _ _ hlength, List.range_eq_range',
      List.getElem?_map]
  refine ⟨?_, hdevices, fun name => Option.ext fun axis => ?_,
    fun name axis => Mesh.axisNamed?_eq_some_iff, fun axis => ?_, fun axis => ?_⟩
  · rw [Mesh.shape, haxes, map_size_assemble _ _ hlength]
  · rw [Mesh.axisNamed?_eq_some_iff, hname, hpasses.getElem?_eq_some_iff]
  · rw [hname, List.getElem?_eq_none_iff, hlength]
  · rw [hlink]
    split_ifs with haxis
    · rw [List.getElem?_range haxis, Option.map_some]
    · rw [List.getElem?_eq_none (by rw [List.length_range]; omega), Option.map_none]

/-- **A draft is built exactly if it is well-formed**, and then as it stands: the mesh has its shape, its
devices and its names, and every link that it does not give is the standard one. -/
theorem builds_exactly_wellFormed {d : Draft} (hfits : Size.volume d.shape < wordLimit) :
    ((∃ mesh, d.build = .ok mesh) ↔ d.IsWellFormed) ∧ ∀ mesh, d.build = .ok mesh → d.Yields mesh :=
  ⟨exists_build_iff hfits, fun _ => yields_of_build⟩

/-- Six devices in two rows, where the link along the rows is not the standard one. -/
def twoRows : Draft :=
  let draft : Draft := { devices := [4, 5, 6, 7, 8, 9], shape := [2, 3] }
  ((draft.withName 0 "data").withName 1 "model").withLink 1 ⟨0.5, 2.0⟩

theorem get?_names_twoRows (name : String) : twoRows.names.get? name =
    if "model" = name then some 1 else if "data" = name then some 0 else none := by
  simp only [twoRows, withName, withLink, SortedMap.get?_insert, SortedMap.get?_empty]

theorem get?_links_twoRows (axis : Nat) : twoRows.links.get? axis =
    if 1 = axis then some ⟨0.5, 2.0⟩ else none := by
  simp only [twoRows, withName, withLink, SortedMap.get?_insert, SortedMap.get?_empty]

theorem isWellFormed_twoRows : twoRows.IsWellFormed := by
  have hshape : twoRows.shape.length = 2 := rfl
  refine ⟨?_, ?_, ?_, by decide, rfl, ?_, ?_⟩
  · intro name axis h
    rw [get?_names_twoRows] at h
    grind
  · intro name name' axis h h'
    rw [get?_names_twoRows] at h h'
    grind
  · intro axis h
    match axis, h with
    | 0, _ => exact ⟨"data", rfl⟩
    | 1, _ => exact ⟨"model", rfl⟩
  · intro axis link h
    rw [get?_links_twoRows] at h
    grind
  · intro axis link h
    rw [get?_links_twoRows] at h
    split_ifs at h
    cases h
    exact ⟨⟨by decide +kernel, by decide +kernel⟩, by decide +kernel, by decide +kernel⟩

theorem builds_exactly_wellFormed_twoRows : Size.volume twoRows.shape < wordLimit ∧
    ∃ mesh, twoRows.build = .ok mesh ∧ mesh.devices = [4, 5, 6, 7, 8, 9] ∧
      mesh.axisNamed? "model" = some 1 ∧ mesh.axisName? 0 = some "data" ∧
      mesh.link? 0 = some .standard ∧ mesh.link? 1 = some ⟨0.5, 2.0⟩ ∧ mesh.link? 2 = none := by
  have hfits : Size.volume twoRows.shape < wordLimit := by decide
  obtain ⟨hiff, hyields⟩ := builds_exactly_wellFormed hfits
  obtain ⟨mesh, hmesh⟩ := hiff.mpr isWellFormed_twoRows
  have h := hyields mesh hmesh
  refine ⟨hfits, mesh, hmesh, h.devices, h.axisNamed? "model", ?_, h.link? 0, h.link? 1, h.link? 2⟩
  exact (h.inverse "data" 0).mp (h.axisNamed? "data")

end Draft

end ShardPlan
