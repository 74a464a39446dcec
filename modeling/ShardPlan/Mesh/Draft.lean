import ShardPlan.Arithmetic.Outcome
import ShardPlan.Collections.SortedMap
import ShardPlan.Decimal.Notation
import ShardPlan.Mesh.Basic
import ShardPlan.Tensor

/-! # Drafts of a mesh

A draft collects devices, a shape, a name for each axis and links that differ from the standard one.
`Draft.build` accepts it as a mesh, or says what is wrong with it. -/

namespace ShardPlan

/-! ### What can be wrong -/

/-- Why a draft or a description is not a mesh. -/
inductive MeshError where
  | axisOutOfRange (axis : Nat) (shape : List Nat)
  | axisNamedTwice (axis : Nat)
  | linkOutOfRange (axis : Nat) (shape : List Nat)
  /-- Only some of the axes have names. -/
  | axesUnnamed (named expected : Nat)
  | emptyAxis (shape : List Nat)
  /-- The devices do not fill the shape. -/
  | deviceCount (count : Nat) (shape : List Nat)
  | unusableLink (axis : Nat) (link : Link)
  /-- A list of a description has not one entry for each axis. -/
  | entryCount (field : String) (count : Nat) (shape : List Nat)

namespace MeshError

/-- Whether the error lies with one axis rather than with the mesh. -/
def isOfAxis : MeshError → Bool
  | axisOutOfRange .. | axisNamedTwice .. | linkOutOfRange .. => true
  | _ => false

/-- The fields of a link in text. -/
def linkText (link : Link) : String :=
  let alpha := Notation.message.text link.alpha
  let beta := Notation.message.text link.beta
  s!"LinkCost \x7b alpha: {alpha}, beta: {beta} \x7d"

/-- What an error says, without the part that names its subject. -/
def reason : MeshError → String
  | axisOutOfRange axis shape =>
    let shape := sizesText shape
    s!"Index {axis} exceeds mesh shape {shape}"
  | axisNamedTwice axis => s!"Dimension {axis} already mapped"
  | linkOutOfRange axis shape =>
    let shape := sizesText shape
    s!"Link cost index {axis} exceeds mesh shape {shape}"
  | axesUnnamed named expected =>
    s!"Not all mesh dimensions are mapped. Got {named}, expected {expected}"
  | emptyAxis shape =>
    let shape := sizesText shape
    s!"Mesh shape {shape} has an empty axis"
  | deviceCount count shape =>
    let shape := sizesText shape
    s!"Device count ({count}) doesn't match mesh shape {shape}"
  | unusableLink axis link =>
    let link := linkText link
    s!"Link cost of axis {axis} must be finite and non-negative, got {link}"
  | entryCount field count shape =>
    let expected := shape.length
    let shape := sizesText shape
    s!"Expected {expected} entries in '{field}' for mesh shape {shape}, got {count}"

/-- The text that reports an error. -/
def message (e : MeshError) : String :=
  (if e.isOfAxis then "Invalid mesh dimension: " else "Invalid mesh: ") ++ e.reason

end MeshError

/-! ### Drafts -/

/-- Whether both prices of a link are finite and not negative. -/
def Link.isUsable (link : Link) : Bool :=
  link.alpha.isFinite && link.beta.isFinite && !(link.alpha < 0.0) && !(link.beta < 0.0)

/-- What a mesh is to be made of. -/
structure Draft where
  devices : List Nat
  shape : List Nat
  /-- The axis that each name stands for. -/
  names : SortedMap String Nat := .empty
  /-- The links of the axes that do not have the standard one. -/
  links : SortedMap Nat Link := .empty

namespace Draft

/-- The draft in which `name` stands for `axis`. -/
def withName (d : Draft) (axis : Nat) (name : String) : Draft :=
  { d with names := d.names.insert name axis }

/-- The draft in which `axis` has the given link. -/
def withLink (d : Draft) (axis : Nat) (link : Link) : Draft :=
  { d with links := d.links.insert axis link }

/-- What is wrong with the axes that names stand for, of which `seen` were met before. -/
def nameError? (shape : List Nat) (seen : List Nat) : List Nat → Option MeshError
  | [] => none
  | axis :: rest =>
    if shape.length ≤ axis then some (.axisOutOfRange axis shape)
    else if seen.contains axis then some (.axisNamedTwice axis)
    else nameError? shape (axis :: seen) rest

/-- What is wrong with the links of axes. -/
def linkError? (shape : List Nat) : List (Nat × Link) → Option MeshError
  | [] => none
  | (axis, link) :: rest =>
    if shape.length ≤ axis then some (.linkOutOfRange axis shape)
    else if link.isUsable then linkError? shape rest
    else some (.unusableLink axis link)

/-- The first name that stands for `axis`. -/
def nameOf? (names : SortedMap String Nat) (axis : Nat) : Option String :=
  (names.entries.find? fun e => e.2 == axis).map Prod.fst

theorem get?_of_nameOf? {names : SortedMap String Nat} {axis : Nat} {name : String}
    (h : nameOf? names axis = some name) : names.get? name = some axis := by
  obtain ⟨e, he, rfl⟩ := Option.map_eq_some_iff.mp h
  have h2 : e.2 = axis := by simpa using List.find?_some he
  exact SortedMap.get?_eq_some_iff.mpr (h2 ▸ List.mem_of_find?_eq_some he)

/-- The axis of a found name is among those that were looked up. -/
theorem mem_of_mapM_nameOf? {names : SortedMap String Nat} {axes : List Nat}
    {found : List String} (h : axes.mapM (nameOf? names) = some found) {name : String}
    (hmem : name ∈ found) : ∃ axis ∈ axes, names.get? name = some axis := by
  induction axes generalizing found with
  | nil => cases h; exact absurd hmem List.not_mem_nil
  | cons axis axes ih =>
    rw [List.mapM_cons] at h
    obtain ⟨first, hfirst, h⟩ := Option.bind_eq_some_iff.mp h
    obtain ⟨rest, hrest, h⟩ := Option.bind_eq_some_iff.mp h
    cases h
    rcases List.mem_cons.mp hmem with h | h
    · exact ⟨axis, List.mem_cons_self, h ▸ get?_of_nameOf? hfirst⟩
    · obtain ⟨other, hother, hget⟩ := ih hrest h
      exact ⟨other, List.mem_cons_of_mem _ hother, hget⟩

/-- Names of different axes are different. -/
theorem nodup_of_mapM_nameOf? {names : SortedMap String Nat} {axes : List Nat}
    {found : List String} (hnodup : axes.Nodup) (h : axes.mapM (nameOf? names) = some found) :
    found.Nodup := by
  induction axes generalizing found with
  | nil => cases h; exact List.nodup_nil
  | cons axis axes ih =>
    rw [List.mapM_cons] at h
    obtain ⟨name, hname, h⟩ := Option.bind_eq_some_iff.mp h
    obtain ⟨rest, hrest, h⟩ := Option.bind_eq_some_iff.mp h
    cases h
    obtain ⟨haxis, hnodup⟩ := List.nodup_cons.mp hnodup
    refine List.nodup_cons.mpr ⟨fun hmem => ?_, ih hnodup hrest⟩
    obtain ⟨other, hother, hget⟩ := mem_of_mapM_nameOf? hrest hmem
    rw [get?_of_nameOf? hname] at hget
    exact haxis (Option.some.inj hget ▸ hother)

theorem length_of_mapM_nameOf? {names : SortedMap String Nat} {axes : List Nat}
    {found : List String} (h : axes.mapM (nameOf? names) = some found) :
    found.length = axes.length := by
  induction axes generalizing found with
  | nil => cases h; rfl
  | cons axis axes ih =>
    rw [List.mapM_cons] at h
    obtain ⟨name, -, h⟩ := Option.bind_eq_some_iff.mp h
    obtain ⟨rest, hrest, h⟩ := Option.bind_eq_some_iff.mp h
    cases h
    rw [List.length_cons, List.length_cons, ih hrest]

/-- The axes from number `i` on, with their names, sizes and links. -/
def assemble (links : SortedMap Nat Link) (i : Nat) : List String → List Nat → List Axis
  | name :: names, size :: shape =>
    ⟨name, size, (links.get? i).getD .standard⟩ :: assemble links (i + 1) names shape
  | _, _ => []

theorem map_name_assemble (links : SortedMap Nat Link) (i : Nat) {names : List String}
    {shape : List Nat} (h : names.length = shape.length) :
    (assemble links i names shape).map Axis.name = names := by
  induction names generalizing i shape with
  | nil => rfl
  | cons name names ih =>
    cases shape with
    | nil => exact nomatch h
    | cons size shape => rw [assemble, List.map_cons, ih (i + 1) (Nat.succ.inj h)]

theorem map_size_assemble (links : SortedMap Nat Link) (i : Nat) {names : List String}
    {shape : List Nat} (h : names.length = shape.length) :
    (assemble links i names shape).map Axis.size = shape := by
  induction names generalizing i shape with
  | nil =>
    cases shape with
    | nil => rfl
    | cons => exact nomatch h
  | cons name names ih =>
    cases shape with
    | nil => exact nomatch h
    | cons size shape => rw [assemble, List.map_cons, ih (i + 1) (Nat.succ.inj h)]

theorem size_pos_assemble (links : SortedMap Nat Link) (i : Nat) {names : List String}
    {shape : List Nat} (h : names.length = shape.length) (hshape : 0 ∉ shape) :
    ∀ a ∈ assemble links i names shape, 0 < a.size := by
  intro a ha
  have hmem : a.size ∈ (assemble links i names shape).map Axis.size := List.mem_map_of_mem ha
  rw [map_size_assemble links i h] at hmem
  exact Nat.pos_of_ne_zero fun h0 => hshape (h0 ▸ hmem)

/-- The mesh of a draft, or the first thing that is wrong with the draft. -/
def build (d : Draft) : Outcome MeshError Mesh :=
  match nameError? d.shape [] d.names.values with
  | some e => .refuse e
  | none =>
    match hnames : (List.range d.shape.length).mapM (nameOf? d.names) with
    | none => .refuse (.axesUnnamed d.names.size d.shape.length)
    | some names =>
      if hempty : 0 ∈ d.shape then .refuse (.emptyAxis d.shape)
      else
        match hcount : Size.product d.shape with
        | .error f => .error (.fault f)
        | .ok count =>
          if hdevices : d.devices.length = count then
            match linkError? d.shape d.links.entries with
            | some e => .refuse e
            | none =>
              have hlength : names.length = d.shape.length := by
                rw [length_of_mapM_nameOf? hnames, List.length_range]
              .ok {
                devices := d.devices
                axes := assemble d.links 0 names d.shape
                size_pos := size_pos_assemble d.links 0 hlength hempty
                names_nodup := by
                  rw [map_name_assemble d.links 0 hlength]
                  exact nodup_of_mapM_nameOf? List.nodup_range hnames
                length_devices := by
                  rw [map_size_assemble d.links 0 hlength, hdevices]
                  exact Size.volume_of_product hcount
                length_devices_lt := hdevices ▸ Size.product_lt hcount }
          else .refuse (.deviceCount d.devices.length d.shape)

end Draft

end ShardPlan
