import ComponentSchema.Proofs.Tree
import ComponentSchema.Registration

/-!
# What a definition says

The attributes of a component, read off its definition alone: no registry, no
order of registration and no placeholder takes part. A reading is total, and a
separate predicate says when the attribute is well formed.
-/

namespace ComponentSchema

theorem PrimitiveKind.ofName?_eq_some_iff {name : String} {kind : PrimitiveKind} :
    PrimitiveKind.ofName? name = some kind ↔ name = kind.name := by
  constructor
  · intro h
    have hk : decide (kind.name = name) = true :=
      List.find?_some (p := fun kind : PrimitiveKind => decide (kind.name = name)) h
    exact (of_decide_eq_true hk).symm
  · intro heq
    subst heq
    cases kind <;> rfl

theorem PrimitiveKind.ofName?_isNone_iff {name : String} :
    (PrimitiveKind.ofName? name).isNone = true ↔ ∀ kind : PrimitiveKind, name ≠ kind.name := by
  rw [Option.isNone_iff_eq_none, Option.eq_none_iff_forall_ne_some]
  exact forall_congr' fun kind => not_congr ofName?_eq_some_iff

theorem PrimitiveKind.name_injective {kind other : PrimitiveKind}
    (h : kind.name = other.name) : kind = other := by
  have hk := ofName?_eq_some_iff.mpr h
  rw [ofName?_eq_some_iff.mpr rfl] at hk
  cases hk
  rfl

theorem Items.declares_iff {items : Items} {name : String} :
    items.declares name = true ↔ name ∈ items.map Item.name := by
  simp [Items.declares]

namespace Definition

/-! ## Reading the attributes -/

/-- What a type name asks for. -/
inductive Form where
  | primitive (kind : PrimitiveKind)
  | map
  | list
  /-- Another component of the top level. -/
  | reference (target : String)
  deriving DecidableEq

/-- The kinds and the two words for composite types go before the components. -/
def Form.ofName (name : String) : Form :=
  match PrimitiveKind.ofName? name with
  | some kind => .primitive kind
  | none => if name = "map" then .map else if name = "list" then .list else .reference name

/-- The name of the type of a component that stands below `path`: its kind, its
target, or its own dotted name. -/
def Form.key (path : List String) (name : String) : Form → String
  | .primitive kind => kind.name
  | .reference target => target
  | .map | .list => Registration.dottedName path name

/-- The form that the type of a definition has. -/
def form? (d : Tree) : Option Form :=
  match d.get? "type" with
  | some (.string name) => some (.ofName name)
  | _ => none

/-- A component is required unless its definition says otherwise. -/
def isRequired (d : Tree) : Bool :=
  match d.get? "required" with
  | some (.bool required) => required
  | _ => true

/-- The named definitions in the body of a map, over all its groups. -/
def members (d : Tree) : List (String × Tree) :=
  match d.get? "items" with
  | some (.list groups) => groups.flatMap Tree.entries
  | _ => []

/-- The type name that an entry of `item_types` is. -/
def entryName? : Tree → Option String
  | .string name => some name
  | _ => none

/-- The type names that a list definition allows, as they are written. -/
def elementTypes (d : Tree) : List String :=
  match d.get? "item_types" with
  | some (.list entries) => entries.filterMap entryName?
  | _ => []

/-- A cardinality bound of a list definition. -/
def bound? (d : Tree) (bound : Bound) : Option Nat :=
  match d.get? bound.attribute with
  | some (.int n) => some n.toNat
  | _ => none

/-- The name of the type of a component with this definition. -/
def typeKey (path : List String) (name : String) (d : Tree) : String :=
  match form? d with
  | some form => form.key path name
  | none => Registration.dottedName path name

/-- A component as an item of the map that contains it. -/
def item (path : List String) (component : String × Tree) : Item :=
  ⟨component.1, typeKey path component.1 component.2, isRequired component.2⟩

/-- A map or a list, which gets a descriptor of its own. -/
def Composite (d : Tree) : Prop := form? d = some .map ∨ form? d = some .list

/-! ## Where components stand -/

/-- The component `name` with the definition `d` stands below the components named
by `path`, outermost first. -/
inductive Occurs (components : Components) : List String → String → Tree → Prop
  | top {name : String} {d : Tree} :
      Entries.get? components name = some d → Occurs components [] name d
  | member {path : List String} {owner name : String} {body d : Tree} :
      Occurs components path owner body → form? body = some .map → (name, d) ∈ members body →
      Occurs components (path ++ [owner]) name d

/-! ## Well-formed attributes -/

/-- A name that a definition may give as its type. -/
def IsTypeName (components : Components) (name : String) : Prop :=
  (∃ kind : PrimitiveKind, name = kind.name) ∨ name = "map" ∨ name = "list" ∨
    Entries.contains components name = true

/-- A name that a list definition may give as an item type. -/
def IsItemType (components : Components) (name : String) : Prop :=
  (∃ kind : PrimitiveKind, name = kind.name) ∨ Entries.contains components name = true

/-- The attributes that every component has. -/
structure WellHeaded (components : Components) (d : Tree) : Prop where
  type : ∃ name, d.get? "type" = some (.string name) ∧ IsTypeName components name
  required : d.get? "required" = none ∨ ∃ required, d.get? "required" = some (.bool required)

/-- The items of a map: groups of named definitions, no name twice. -/
structure MapBody (d : Tree) : Prop where
  groups : ∃ groups, d.get? "items" = some (.list groups) ∧ groups ≠ [] ∧
    ∀ group ∈ groups, ∃ first rest, group = .map (first :: rest)
  distinct : (Entries.names (members d)).Nodup

/-- The attributes of a list whose item types are known ones. -/
structure ListBody (known : String → Prop) (d : Tree) : Prop where
  entries : ∃ entries, d.get? "item_types" = some (.list entries) ∧ entries ≠ [] ∧
    ∀ entry ∈ entries, ∃ name, entry = .string name ∧ known name
  bounds : ∀ bound : Bound, d.get? bound.attribute = none ∨ d.get? bound.attribute = some .null ∨
    ∃ n : Int, d.get? bound.attribute = some (.int n) ∧ 0 ≤ n
  ordered : ∀ {low high}, bound? d .min = some low → bound? d .max = some high → low ≤ high

/-! ## Laws of the readings -/

theorem Form.ofName_kind (kind : PrimitiveKind) : Form.ofName kind.name = .primitive kind := by
  rw [Form.ofName, PrimitiveKind.ofName?_eq_some_iff.mpr rfl]

theorem Form.ofName_map : Form.ofName "map" = .map := rfl

theorem Form.ofName_list : Form.ofName "list" = .list := rfl

theorem Form.ofName_eq_reference {name target : String} (h : Form.ofName name = .reference target) :
    name = target := by
  rw [Form.ofName] at h
  split at h
  next => cases h
  next =>
    split at h
    next => cases h
    next =>
      split at h
      next => cases h
      next => cases h; rfl

/-- Only a type name that is taken for a reference has to be a component. -/
theorem isTypeName_iff {components : Components} {name : String} :
    IsTypeName components name ↔ ∀ target, Form.ofName name = .reference target →
      Entries.contains components target = true := by
  constructor
  · intro hx target ht
    rcases hx with ⟨kind, rfl⟩ | rfl | rfl | hc
    · cases (Form.ofName_kind kind).symm.trans ht
    · cases Form.ofName_map.symm.trans ht
    · cases Form.ofName_list.symm.trans ht
    · rwa [← Form.ofName_eq_reference ht]
  · intro h
    rw [IsTypeName]
    cases hk : PrimitiveKind.ofName? name with
    | some kind => exact .inl ⟨kind, PrimitiveKind.ofName?_eq_some_iff.mp hk⟩
    | none =>
      by_cases hm : name = "map"
      · exact .inr (.inl hm)
      by_cases hl : name = "list"
      · exact .inr (.inr (.inl hl))
      -- any other name is taken for a reference
      · exact .inr (.inr (.inr (h name (by rw [Form.ofName, hk]; simp [hm, hl]))))

theorem IsItemType.isTypeName {components : Components} {name : String}
    (h : IsItemType components name) : IsTypeName components name := by
  rcases h with hk | hc
  · exact .inl hk
  · exact .inr (.inr (.inr hc))

theorem form?_eq_some_iff {d : Tree} {form : Form} :
    form? d = some form ↔
      ∃ name, d.get? "type" = some (.string name) ∧ Form.ofName name = form := by
  rw [form?]
  split
  next name h => simp [h]
  next h =>
    simp only [reduceCtorEq, false_iff, not_exists, not_and]
    intro name hn
    exact absurd hn (h name)

theorem WellHeaded.form {components : Components} {d : Tree} (h : WellHeaded components d) :
    ∃ form, form? d = some form := by
  obtain ⟨name, hn, -⟩ := h.type
  exact ⟨_, form?_eq_some_iff.mpr ⟨name, hn, rfl⟩⟩

/-- Only the top-level names matter for the attributes, and only those that are not
names of kinds. -/
theorem WellHeaded.mono {components components' : Components} {d : Tree}
    (h : WellHeaded components d)
    (hc : ∀ name, Entries.contains components name = true → IsItemType components' name) :
    WellHeaded components' d := by
  refine ⟨?_, h.required⟩
  obtain ⟨name, hn, hk⟩ := h.type
  refine ⟨name, hn, ?_⟩
  rcases hk with hk | hm | hl | ht
  · exact .inl hk
  · exact .inr (.inl hm)
  · exact .inr (.inr (.inl hl))
  · exact (hc name ht).isTypeName

/-- A well-formed reference has a target. -/
theorem WellHeaded.target {components : Components} {d : Tree} {target : String}
    (h : WellHeaded components d) (hf : form? d = some (.reference target)) :
    Entries.contains components target = true := by
  obtain ⟨name, hn, hk⟩ := h.type
  obtain ⟨other, ho, hr⟩ := form?_eq_some_iff.mp hf
  rw [hn] at ho
  cases ho
  exact isTypeName_iff.mp hk target hr

theorem typeKey_of_form {path : List String} {name : String} {d : Tree} {form : Form}
    (h : form? d = some form) : typeKey path name d = form.key path name := by
  rw [typeKey, h]

theorem typeKey_composite {path : List String} {name : String} {d : Tree}
    (h : Composite d) : typeKey path name d = Registration.dottedName path name := by
  rcases h with h | h <;> exact typeKey_of_form h

theorem Composite.not_reference {d : Tree} {target : String} (h : Composite d) :
    form? d ≠ some (.reference target) := by
  rcases h with h | h <;> rw [h] <;> simp

theorem Composite.not_primitive {d : Tree} {kind : PrimitiveKind} (h : Composite d) :
    form? d ≠ some (.primitive kind) := by
  rcases h with h | h <;> rw [h] <;> simp

theorem ListBody.mono {known known' : String → Prop} {d : Tree} (h : ListBody known d)
    (hk : ∀ name ∈ elementTypes d, known name → known' name) : ListBody known' d := by
  obtain ⟨entries, he, hne, hs⟩ := h.entries
  refine ⟨⟨entries, he, hne, fun entry hm => ?_⟩, h.bounds, h.ordered⟩
  obtain ⟨name, rfl, hn⟩ := hs entry hm
  refine ⟨name, rfl, hk name ?_ hn⟩
  rw [elementTypes, he]
  exact List.mem_filterMap.mpr ⟨_, hm, rfl⟩

theorem ListBody.known {known : String → Prop} {d : Tree} (h : ListBody known d) {name : String}
    (hm : name ∈ elementTypes d) : known name := by
  obtain ⟨entries, he, -, hs⟩ := h.entries
  rw [elementTypes, he] at hm
  obtain ⟨entry, hmem, hn⟩ := List.mem_filterMap.mp hm
  obtain ⟨other, rfl, hk⟩ := hs entry hmem
  cases hn
  exact hk

/-! ## Induction over the nesting of components -/

theorem sizeOf_member_lt {d : Tree} {m : String × Tree} (h : m ∈ members d) :
    sizeOf m.2 < sizeOf d := by
  rw [members] at h
  split at h
  next groups hg =>
    obtain ⟨group, hmem, hin⟩ := List.mem_flatMap.mp h
    calc sizeOf m.2 < sizeOf group := Tree.sizeOf_entry_lt hin
      _ < sizeOf (Tree.list groups) := Tree.sizeOf_element_lt hmem
      _ < sizeOf d := Tree.sizeOf_get?_lt hg
  next => cases h

/-- A property of every definition follows from its passing from the members of a
map to the map. -/
theorem nesting_induction {motive : Tree → Prop}
    (step : ∀ d, (∀ m ∈ members d, motive m.2) → motive d) (d : Tree) : motive d :=
  step d fun m _ => nesting_induction step m.2
termination_by sizeOf d
decreasing_by exact sizeOf_member_lt ‹_›

end Definition

end ComponentSchema
