import ComponentSchema.Proofs.Definition
import Mathlib.Logic.Relation

/-!
# Origins of types

Each type name of a definition stands for a kind or for one map or list component,
which is found without a registry: a component stands for itself under its dotted
name, and a top-level reference stands for what its target stands for.
-/

namespace ComponentSchema

open Registration

/-! ## Dotted names -/

@[simp] theorem dottedName_top (name : String) : dottedName [] name = name := rfl

theorem dottedName_eq_intercalate (path : List String) (name : String) :
    dottedName path name = ".".intercalate (path ++ [name]) := by
  by_cases hp : path = []
  · rw [hp]
    rfl
  · have hempty : ¬ path.isEmpty = true := by simpa using hp
    rw [dottedName, if_neg hempty, String.intercalate_append_of_ne_nil hp (by simp),
      String.intercalate_singleton]

/-- Names without dots are read back off their dotted name. -/
theorem dottedName_split {path : List String} {name : String}
    (hp : ∀ step ∈ path, '.' ∉ step.toList) (hn : '.' ∉ name.toList) :
    (dottedName path name).toList.splitOn '.' = (path ++ [name]).map String.toList := by
  rw [dottedName_eq_intercalate, String.toList_intercalate]
  refine List.splitOn_intercalate '.' ?_ (by simp)
  intro l hl
  obtain ⟨step, hs, rfl⟩ := List.mem_map.mp hl
  rcases List.mem_append.mp hs with hs | hs
  · exact hp step hs
  · rw [List.mem_singleton.mp hs]
    exact hn

theorem dottedName_injective {path path' : List String} {name name' : String}
    (hp : ∀ step ∈ path, '.' ∉ step.toList) (hn : '.' ∉ name.toList)
    (hp' : ∀ step ∈ path', '.' ∉ step.toList) (hn' : '.' ∉ name'.toList)
    (h : dottedName path name = dottedName path' name') : path = path' ∧ name = name' := by
  have hs := dottedName_split hp hn
  rw [h, dottedName_split hp' hn'] at hs
  have hl : path' ++ [name'] = path ++ [name] :=
    (List.map_inj_right fun _ _ => String.toList_inj.mp).mp hs
  obtain ⟨rfl, hname⟩ := List.append_inj' hl rfl
  exact ⟨rfl, (List.cons.inj hname).1.symm⟩

theorem dot_mem_dottedName {path : List String} {name : String} (h : path ≠ []) :
    '.' ∈ (dottedName path name).toList := by
  rw [dottedName, if_neg (by simpa using h)]
  simp

theorem PrimitiveKind.dot_not_mem_name (kind : PrimitiveKind) : '.' ∉ kind.name.toList := by
  cases kind <;> decide

namespace Definition

/-! ## Origins -/

/-- What describes a type: a kind, or a map or list component where it stands. -/
inductive Origin where
  | primitive (kind : PrimitiveKind)
  | component (path : List String) (name : String) (d : Tree)

/-- The name under which the description itself is registered. -/
def Origin.key : Origin → String
  | .primitive kind => kind.name
  | .component path name _ => dottedName path name

/-- The descriptor that the definition of a component asks for: a map has the items
of its body in order, and a list has its item types, later repeats dropped, and its
bounds. -/
def describe (path : List String) (name : String) (d : Tree) : Descriptor :=
  match form? d with
  | some .map => .map ((members d).map (item (path ++ [name])))
  | some .list => .list ⟨(elementTypes d).eraseDups, bound? d .min, bound? d .max⟩
  | _ => .incomplete

/-- The descriptor read off the description. -/
def Origin.descriptor : Origin → Descriptor
  | .primitive kind => .primitive kind
  | .component path name d => describe path name d

/-- The type name stands for what the origin describes. -/
inductive Resolves (components : Components) : String → Origin → Prop
  | kind (kind : PrimitiveKind) : Resolves components kind.name (.primitive kind)
  | component {path : List String} {name : String} {d : Tree} : Occurs components path name d →
      Composite d → Resolves components (dottedName path name) (.component path name d)
  | primitiveAlias {name : String} {d : Tree} {kind : PrimitiveKind} :
      Entries.get? components name = some d → form? d = some (.primitive kind) →
      Resolves components name (.primitive kind)
  | reference {name target : String} {d : Tree} {origin : Origin} :
      Entries.get? components name = some d → form? d = some (.reference target) →
      Resolves components target origin → Resolves components name origin

/-- The top-level component `name` refers to the type `target`. -/
def RefersTo (components : Components) (name target : String) : Prop :=
  ∃ d, Entries.get? components name = some d ∧ form? d = some (.reference target)

/-! ## Plain names -/

/-- No name of a component and no item type of a list has a dot in it, and no
top-level component has the name of a kind. -/
structure PlainNames (components : Components) : Prop where
  names : ∀ {path name d}, Occurs components path name d → '.' ∉ name.toList
  kinds : ∀ kind : PrimitiveKind, Entries.get? components kind.name = none
  itemTypes : ∀ {path name d}, Occurs components path name d → form? d = some .list →
    ∀ type ∈ elementTypes d, '.' ∉ type.toList

variable {components : Components}

theorem Occurs.top_iff {name : String} {d : Tree} :
    Occurs components [] name d ↔ Entries.get? components name = some d := by
  constructor
  · intro h
    generalize hp : ([] : List String) = path at h
    cases h with
    | top hd => exact hd
    | member _ _ _ => simp at hp
  · exact .top

/-! ## Dotted names that tell places apart -/

/-- Maps and lists at different places have different dotted names. -/
def PlacesApart (components : Components) : Prop :=
  ∀ {path name d path' name' d'}, Occurs components path name d → Composite d →
    Occurs components path' name' d' → Composite d' →
    dottedName path name = dottedName path' name' → path = path' ∧ name = name'

/-- A top-level component that has the dotted name of a map or a list is itself a map or
a list. -/
def AliasesApart (components : Components) : Prop :=
  ∀ {path name d d'}, Occurs components path name d → Composite d →
    Entries.get? components (dottedName path name) = some d' → Composite d'

/-- A dotted name is that of one map or list only, and of no alias or kind. -/
structure KeysApart (components : Components) : Prop where
  places : PlacesApart components
  aliases : AliasesApart components
  kinds : ∀ kind : PrimitiveKind, Entries.get? components kind.name = none

/-- A map or list whose dotted name is a top-level name is the top-level one. -/
theorem KeysApart.top (h : KeysApart components) {path : List String} {name : String}
    {d d' : Tree} (ho : Occurs components path name d) (hc : Composite d)
    (hd : Entries.get? components (dottedName path name) = some d') : path = [] ∧ d = d' := by
  obtain ⟨rfl, -⟩ := h.places ho hc (.top hd) (h.aliases ho hc hd) (dottedName_top _).symm
  rw [dottedName_top, Occurs.top_iff.mp ho] at hd
  cases hd
  exact ⟨rfl, rfl⟩

theorem KeysApart.dottedName_ne_kind (h : KeysApart components) {path : List String}
    {name : String} {d : Tree} (ho : Occurs components path name d) (kind : PrimitiveKind) :
    dottedName path name ≠ kind.name := by
  intro he
  by_cases hp : path = []
  · subst hp
    have hd := Occurs.top_iff.mp ho
    rw [show name = kind.name from he, h.kinds kind] at hd
    cases hd
  · exact kind.dot_not_mem_name (he ▸ dot_mem_dottedName hp)

section

variable (h : ∀ {path name d}, Occurs components path name d → '.' ∉ name.toList)

include h

theorem names_dotFree : ∀ name ∈ Entries.names components, '.' ∉ name.toList := by
  intro name hm
  obtain ⟨d, hd⟩ := Entries.mem_names_iff_get?.mp hm
  exact h (.top hd)

theorem Occurs.path_dotFree {path : List String} {name : String} {d : Tree}
    (ho : Occurs components path name d) : ∀ step ∈ path, '.' ∉ step.toList := by
  induction ho with
  | top _ => simp
  | member ho _ _ ih =>
    intro step hs
    rcases List.mem_append.mp hs with hs | hs
    · exact ih step hs
    · rw [List.mem_singleton.mp hs]
      exact h ho

theorem placesApart_of_dotFree : PlacesApart components := by
  intro path name d path' name' d' ho _ ho' _ he
  exact dottedName_injective (ho.path_dotFree h) (h ho) (ho'.path_dotFree h) (h ho') he

theorem aliasesApart_of_dotFree : AliasesApart components := by
  intro path name d d' ho hc hd
  by_cases hp : path = []
  · subst hp
    rw [dottedName_top, Occurs.top_iff.mp ho] at hd
    cases hd
    exact hc
  · exact absurd (dot_mem_dottedName hp) (h (.top hd))

end

theorem PlainNames.keys (h : PlainNames components) : KeysApart components :=
  ⟨placesApart_of_dotFree h.names, aliasesApart_of_dotFree h.names, h.kinds⟩

/-! ## Chains of references -/

theorem RefersTo.unique {a b c : String} (h : RefersTo components a b)
    (h' : RefersTo components a c) : b = c := by
  obtain ⟨d, hd, hf⟩ := h
  obtain ⟨d', hd', hf'⟩ := h'
  rw [hd] at hd'
  cases hd'
  rw [hf] at hf'
  cases hf'
  rfl

/-- A composite component is the end of every chain that comes to it. -/
theorem KeysApart.not_refersTo (h : KeysApart components) {path : List String}
    {name target : String} {d : Tree} (ho : Occurs components path name d) (hc : Composite d) :
    ¬ RefersTo components (dottedName path name) target := by
  intro hx
  obtain ⟨d', hd', hf⟩ := hx
  obtain ⟨-, rfl⟩ := h.top ho hc hd'
  exact hc.not_reference hf

theorem KeysApart.kind_not_refersTo (h : KeysApart components) (kind : PrimitiveKind)
    (target : String) : ¬ RefersTo components kind.name target := by
  intro hr
  obtain ⟨d, hd, -⟩ := hr
  rw [h.kinds kind] at hd
  cases hd

theorem not_refersTo_of_primitive {name target : String} {d : Tree} {kind : PrimitiveKind}
    (hd : Entries.get? components name = some d) (hf : form? d = some (.primitive kind)) :
    ¬ RefersTo components name target := by
  intro hr
  obtain ⟨d', hd', hf'⟩ := hr
  rw [hd] at hd'
  cases hd'
  rw [hf] at hf'
  cases hf'

/-- A reference stands for what its target stands for. -/
theorem Resolves.next (hn : KeysApart components) {a b : String} {origin : Origin}
    (h : Resolves components a origin) (hr : RefersTo components a b) :
    Resolves components b origin := by
  cases h with
  | kind kind => exact absurd hr (hn.kind_not_refersTo kind b)
  | component ho hc => exact absurd hr (hn.not_refersTo ho hc)
  | primitiveAlias hd hf => exact absurd hr (not_refersTo_of_primitive hd hf)
  | reference hd hf ht =>
    have htarget := RefersTo.unique ⟨_, hd, hf⟩ hr
    subst htarget
    exact ht

/-- No cycle is reached from the end of a chain. -/
theorem acyclic_of_end {a b : String} (hend : ∀ target, ¬ RefersTo components a target)
    (hr : Relation.ReflTransGen (RefersTo components) a b) :
    ¬ Relation.TransGen (RefersTo components) b b := by
  intro hcycle
  obtain ⟨target, hb, -⟩ := Relation.TransGen.head'_iff.mp hcycle
  rcases hr.cases_head with rfl | ⟨next, ha, -⟩
  · exact hend target hb
  · exact hend next ha

/-- A chain of references that ends has no cycle on it. -/
theorem Resolves.acyclic (hn : KeysApart components) {a b : String} {origin : Origin}
    (h : Resolves components a origin)
    (hr : Relation.ReflTransGen (RefersTo components) a b) :
    ¬ Relation.TransGen (RefersTo components) b b := by
  induction h with
  | kind kind => exact acyclic_of_end (hn.kind_not_refersTo kind) hr
  | component ho hc => exact acyclic_of_end (fun _ => hn.not_refersTo ho hc) hr
  | primitiveAlias hd hf => exact acyclic_of_end (fun _ => not_refersTo_of_primitive hd hf) hr
  | @reference name target d origin hd hf _ ih =>
    have hstep : RefersTo components name target := ⟨d, hd, hf⟩
    rcases hr.cases_head with rfl | ⟨next, hnext, hrest⟩
    · -- a cycle through the reference is a cycle through its target
      intro hcycle
      obtain ⟨next, hnext, hback⟩ := Relation.TransGen.head'_iff.mp hcycle
      have htarget := hstep.unique hnext
      subst htarget
      exact ih hback hcycle
    · have htarget := hstep.unique hnext
      subst htarget
      exact ih hrest

/-! ## What a name stands for is determined -/

theorem Resolves.of_kind (hn : KeysApart components) {kind : PrimitiveKind} {origin : Origin}
    (h : Resolves components kind.name origin) : origin = .primitive kind := by
  generalize ha : kind.name = a at h
  cases h with
  | kind other => rw [PrimitiveKind.name_injective ha]
  | component ho _ => exact absurd ha.symm (hn.dottedName_ne_kind ho kind)
  | primitiveAlias hd _ =>
    rw [← ha, hn.kinds kind] at hd
    cases hd
  | reference hd _ _ =>
    rw [← ha, hn.kinds kind] at hd
    cases hd

/-- A composite component stands for itself. -/
theorem Resolves.of_composite (hn : KeysApart components) {path : List String} {name : String}
    {d : Tree} (ho : Occurs components path name d) (hc : Composite d) {origin : Origin}
    (h : Resolves components (dottedName path name) origin) :
    ∃ d', origin = .component path name d' ∧ Occurs components path name d' := by
  generalize ha : dottedName path name = a at h
  cases h with
  | kind kind => exact absurd ha (hn.dottedName_ne_kind ho kind)
  | component ho' hc' =>
    obtain ⟨rfl, rfl⟩ := hn.places ho hc ho' hc' ha
    exact ⟨_, rfl, ho'⟩
  | primitiveAlias hd hf =>
    rw [← ha] at hd
    obtain ⟨-, rfl⟩ := hn.top ho hc hd
    exact absurd hf hc.not_primitive
  | reference hd hf _ =>
    rw [← ha] at hd
    exact absurd ⟨_, hd, hf⟩ (hn.not_refersTo ho hc)

theorem Resolves.of_primitive (hn : KeysApart components) {name : String} {d : Tree}
    {kind : PrimitiveKind} (hd : Entries.get? components name = some d)
    (hf : form? d = some (.primitive kind)) {origin : Origin}
    (h : Resolves components name origin) : origin = .primitive kind := by
  cases h with
  | kind other =>
    rw [hn.kinds other] at hd
    cases hd
  | component ho hc =>
    obtain ⟨-, rfl⟩ := hn.top ho hc hd
    exact absurd hf hc.not_primitive
  | primitiveAlias hd' hf' =>
    rw [hd] at hd'
    cases hd'
    rw [hf] at hf'
    cases hf'
    rfl
  | reference hd' hf' _ =>
    rw [hd] at hd'
    cases hd'
    rw [hf] at hf'
    cases hf'

/-- Two descriptions of one name are the same, if no two components stand at one
place. -/
theorem Resolves.unique (hn : KeysApart components)
    (hu : ∀ {path name d d'}, Occurs components path name d → Occurs components path name d' →
      d = d')
    {a : String} {origin other : Origin} (h : Resolves components a origin)
    (h' : Resolves components a other) : origin = other := by
  induction h with
  | kind kind => exact (h'.of_kind hn).symm
  | component ho hc =>
    obtain ⟨d', rfl, ho'⟩ := h'.of_composite hn ho hc
    rw [hu ho ho']
  | primitiveAlias hd hf => exact (h'.of_primitive hn hd hf).symm
  | reference hd hf _ ih => exact ih (h'.next hn ⟨_, hd, hf⟩)

/-! ## A recursive definition

A node has a list of children, each a node or an integer, and `tree` is another name
for it, given before the node itself. -/

def childrenDefinition : Tree :=
  .map [("type", .string "list"), ("item_types", .list [.string "node", .string "int"]),
    ("required", .bool false)]

def nodeDefinition : Tree :=
  .map [("type", .string "map"), ("items", .list [.map [("children", childrenDefinition)]])]

def treeDefinition : Tree :=
  .map [("tree", .map [("type", .string "node")]), ("node", nodeDefinition)]

theorem treeDefinition_occurs {path : List String} {name : String} {d : Tree}
    (h : Occurs treeDefinition.entries path name d) :
    (path = [] ∧ name = "tree" ∧ d = .map [("type", .string "node")]) ∨
    (path = [] ∧ name = "node" ∧ d = nodeDefinition) ∨
    (path = ["node"] ∧ name = "children" ∧ d = childrenDefinition) := by
  induction h with
  | top hd =>
    have hm := Entries.mem_of_get? hd
    simpa [treeDefinition, Tree.entries] using hm
  | member _ hf hm ih =>
    rcases ih with ⟨rfl, rfl, rfl⟩ | ⟨rfl, rfl, rfl⟩ | ⟨rfl, rfl, rfl⟩
    · cases hf
    · simpa [nodeDefinition, members, Tree.get?, Entries.get?, Tree.entries] using hm
    · cases hf

theorem treeDefinition_plain : PlainNames treeDefinition.entries where
  names h := by
    rcases treeDefinition_occurs h with ⟨-, rfl, -⟩ | ⟨-, rfl, -⟩ | ⟨-, rfl, -⟩ <;> decide
  kinds kind := by cases kind <;> rfl
  itemTypes h hf := by
    rcases treeDefinition_occurs h with ⟨-, -, rfl⟩ | ⟨-, -, rfl⟩ | ⟨-, -, rfl⟩
    · cases hf
    · cases hf
    · decide

end Definition

end ComponentSchema
