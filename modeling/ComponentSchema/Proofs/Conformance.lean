import ComponentSchema.Proofs.Compiled

/-!
# Conformance

What it means for a document to conform to a definition, said on the definition
itself: there is no registry, no type name but those the author wrote, and no
placeholder. Compiling a definition with plain names and validating a document
agree with it.
-/

namespace ComponentSchema

open Registration Definition

/-! ## The meaning of a definition -/

/-- The value is a scalar of the kind. -/
inductive Scalar : PrimitiveKind → Tree → Prop
  | bool (value : Bool) : Scalar .bool (.bool value)
  | string (value : String) : Scalar .string (.string value)
  | int (value : Int) : Scalar .int (.int value)
  | float (value : Binary64) : Scalar .float (.float value)

mutual

/-- The value conforms to the definition of a component. -/
inductive Conforms (components : Components) : Tree → Tree → Prop
  | primitive {d value : Tree} {kind : PrimitiveKind} : form? d = some (.primitive kind) →
      Scalar kind value → Conforms components d value
  | map {d value : Tree} : form? d = some .map → MapConforms components (members d) value →
      Conforms components d value
  | list {d value : Tree} : form? d = some .list → ListConforms components d value →
      Conforms components d value
  | reference {d value : Tree} {target : String} : form? d = some (.reference target) →
      NamedConforms components target value → Conforms components d value

/-- The value conforms to the type of this name, a kind or a top-level component. -/
inductive NamedConforms (components : Components) : String → Tree → Prop
  | kind {kind : PrimitiveKind} {value : Tree} : Scalar kind value →
      NamedConforms components kind.name value
  | component {name : String} {d value : Tree} : Entries.get? components name = some d →
      Conforms components d value → NamedConforms components name value

/-- The value conforms to a map with the given items. Null is an absent map: it will
do if no item is required. -/
inductive MapConforms (components : Components) : List (String × Tree) → Tree → Prop
  | absent {items : List (String × Tree)} : (∀ m ∈ items, isRequired m.2 = false) →
      MapConforms components items .null
  | present {items entries : List (String × Tree)} :
      (∀ key value, (key, value) ∈ entries → MemberConforms components items key value) →
      (∀ m ∈ items, isRequired m.2 = true → m.1 ∈ Entries.names entries) →
      MapConforms components items (.map entries)

/-- The key is the name of an item, and the value conforms to the item's own
definition. -/
inductive MemberConforms (components : Components) : List (String × Tree) → String → Tree → Prop
  | of {items : List (String × Tree)} {key : String} {d value : Tree} : (key, d) ∈ items →
      Conforms components d value → MemberConforms components items key value

/-- The value conforms to a list definition. Null is an absent list: it will do
unless a positive number of elements is asked for. -/
inductive ListConforms (components : Components) : Tree → Tree → Prop
  | absent {d : Tree} : (∀ min, bound? d .min = some min → min = 0) →
      ListConforms components d .null
  | present {d : Tree} {elements : List Tree} :
      (∀ element ∈ elements, ElementConforms components d element) →
      (∀ min, bound? d .min = some min → min ≤ elements.length) →
      (∀ max, bound? d .max = some max → elements.length ≤ max) →
      ListConforms components d (.list elements)

/-- An element of a list is a mapping from allowed type names to values of these
types. -/
inductive ElementConforms (components : Components) : Tree → Tree → Prop
  | of {d : Tree} {tagged : List (String × Tree)} :
      (∀ tag value, (tag, value) ∈ tagged → tag ∈ elementTypes d) →
      (∀ tag value, (tag, value) ∈ tagged → NamedConforms components tag value) →
      ElementConforms components d (.map tagged)

end

/-- The document conforms to the definition: it is a map of the top-level
components. -/
def ConformsTo (definition document : Tree) : Prop :=
  MapConforms definition.entries definition.entries document

/-! ## Laws of conformance -/

section

variable {components : Components} {d value : Tree}

theorem accepts_iff_scalar {kind : PrimitiveKind} :
    kind.accepts value = true ↔ Scalar kind value := by
  constructor
  · intro h
    cases kind <;> cases value <;> cases h <;> constructor
  · intro h
    cases h <;> rfl

theorem conforms_primitive {kind : PrimitiveKind} (hf : form? d = some (.primitive kind)) :
    Conforms components d value ↔ Scalar kind value := by
  constructor
  · intro h
    cases h with
    | primitive hf' hs =>
      rw [hf] at hf'
      cases hf'
      exact hs
    | map hf' _ | list hf' _ | reference hf' _ =>
      rw [hf] at hf'
      cases hf'
  · exact .primitive hf

theorem conforms_map (hf : form? d = some .map) :
    Conforms components d value ↔ MapConforms components (members d) value := by
  constructor
  · intro h
    cases h with
    | map _ hm => exact hm
    | primitive hf' _ | list hf' _ | reference hf' _ =>
      rw [hf] at hf'
      cases hf'
  · exact .map hf

theorem conforms_list (hf : form? d = some .list) :
    Conforms components d value ↔ ListConforms components d value := by
  constructor
  · intro h
    cases h with
    | list _ hl => exact hl
    | primitive hf' _ | map hf' _ | reference hf' _ =>
      rw [hf] at hf'
      cases hf'
  · exact .list hf

theorem conforms_reference {target : String} (hf : form? d = some (.reference target)) :
    Conforms components d value ↔ NamedConforms components target value := by
  constructor
  · intro h
    cases h with
    | reference hf' ht =>
      rw [hf] at hf'
      cases hf'
      exact ht
    | primitive hf' _ | map hf' _ | list hf' _ =>
      rw [hf] at hf'
      cases hf'
  · exact .reference hf

theorem mapConforms_iff {items : List (String × Tree)} :
    MapConforms components items value ↔
      (value = .null ∧ ∀ m ∈ items, isRequired m.2 = false) ∨
      ∃ entries, value = .map entries ∧
        (∀ entry ∈ entries, ∃ m ∈ items, m.1 = entry.1 ∧ Conforms components m.2 entry.2) ∧
        ∀ m ∈ items, isRequired m.2 = true → m.1 ∈ Entries.names entries := by
  constructor
  · intro h
    cases h with
    | absent hr => exact .inl ⟨rfl, hr⟩
    | present hs hr =>
      refine .inr ⟨_, rfl, fun entry hm => ?_, hr⟩
      cases hs entry.1 entry.2 hm with
      | of hin hv => exact ⟨_, hin, rfl, hv⟩
  · intro hx
    rcases hx with ⟨rfl, hr⟩ | ⟨entries, rfl, hs, hr⟩
    · exact .absent hr
    · refine .present (fun key value hm => ?_) hr
      obtain ⟨⟨name, d⟩, hin, rfl, hv⟩ := hs _ hm
      exact .of hin hv

theorem listConforms_iff :
    ListConforms components d value ↔
      (value = .null ∧ ∀ min, bound? d .min = some min → min = 0) ∨
      ∃ elements, value = .list elements ∧
        (∀ element ∈ elements, ∃ tagged, element = .map tagged ∧ ∀ entry ∈ tagged,
          entry.1 ∈ elementTypes d ∧ NamedConforms components entry.1 entry.2) ∧
        (∀ max, bound? d .max = some max → elements.length ≤ max) ∧
        ∀ min, bound? d .min = some min → min ≤ elements.length := by
  constructor
  · intro h
    cases h with
    | absent hmin => exact .inl ⟨rfl, hmin⟩
    | present hs hmin hmax =>
      refine .inr ⟨_, rfl, fun element hm => ?_, hmax, hmin⟩
      cases hs element hm with
      | of htags hv => exact ⟨_, rfl, fun entry hin => ⟨htags _ _ hin, hv _ _ hin⟩⟩
  · intro hx
    rcases hx with ⟨rfl, hmin⟩ | ⟨elements, rfl, hs, hmax, hmin⟩
    · exact .absent hmin
    · refine .present (fun element hm => ?_) hmin hmax
      obtain ⟨tagged, rfl, ht⟩ := hs element hm
      exact .of (fun tag value hin => (ht _ hin).1) (fun tag value hin => (ht _ hin).2)

end

/-! ## Validation agrees with conformance -/

/-- The value conforms to what the origin describes. -/
def OriginConforms (components : Components) : Origin → Tree → Prop
  | .primitive kind, value => Scalar kind value
  | .component _ _ d, value => Conforms components d value

namespace Compiled

variable {components : Components} {own : Nat → Origin} {root : Items} {r : Registry}

theorem namedConforms_kind (hn : KeysApart components) {kind : PrimitiveKind} {value : Tree} :
    NamedConforms components kind.name value ↔ Scalar kind value := by
  constructor
  · intro h
    generalize hk : kind.name = name at h
    cases h with
    | kind hs =>
      rw [PrimitiveKind.name_injective hk]
      exact hs
    | component hd _ =>
      rw [← hk, hn.kinds] at hd
      cases hd
  · exact .kind

/-- A name that is a component conforms as the component's definition does. -/
theorem namedConforms_component (hn : KeysApart components) {name : String} {d value : Tree}
    (hd : Entries.get? components name = some d) :
    NamedConforms components name value ↔ Conforms components d value := by
  constructor
  · intro h
    cases h with
    | kind _ =>
      rw [hn.kinds] at hd
      cases hd
    | component hd' hv =>
      rw [hd] at hd'
      cases hd'
      exact hv
  · exact .component hd

/-- Following the references from a type name by conformance comes to what the name
stands for. The induction is over the chain. -/
theorem named_iff_origin (h : Compiled components own root r) {name : String} {origin : Origin}
    (hr : Resolves components name origin) (hi : IsItemType components name) {value : Tree} :
    NamedConforms components name value ↔ OriginConforms components origin value := by
  induction hr with
  | kind kind => exact namedConforms_kind h.keys
  | @component path name d ho hc =>
    rcases hi with ⟨kind, hk⟩ | hi
    · exact absurd hk (h.keys.dottedName_ne_kind ho kind)
    · -- the component is a top-level one, so its name is its own
      obtain ⟨d', hd'⟩ := Entries.contains_iff_get?.mp hi
      obtain ⟨-, rfl⟩ := h.keys.top ho hc hd'
      rw [namedConforms_component h.keys hd']
      rfl
  | primitiveAlias hd hf =>
    exact (namedConforms_component h.keys hd).trans (conforms_primitive hf)
  | @reference name target d origin hd hf _ ih =>
    have htarget := (h.visited hd).headed.target hf
    calc NamedConforms components name value ↔ Conforms components d value :=
          namedConforms_component h.keys hd
      _ ↔ NamedConforms components target value := conforms_reference hf
      _ ↔ OriginConforms components origin value := ih (.inr htarget)

/-- A map of components accepts what conforms to it, if its items do. -/
theorem accepts_map_iff_conforms {path : List String} {items : List (String × Tree)}
    {value : Tree} (hd : (Entries.names items).Nodup)
    (hs : ∀ part ∈ value.parts, ∀ m ∈ items,
      (Accepts r (r.resolve (typeKey path m.1 m.2)) part ↔ Conforms components m.2 part)) :
    Accepts r (.map (items.map (item path))) value ↔ MapConforms components items value := by
  have hnames : ((items.map (item path)).map Item.name).Nodup := by
    rwa [List.map_map]
  rw [accepts_map_iff hnames, mapConforms_iff]
  refine or_congr (and_congr_right fun _ => List.forall_mem_map) (exists_congr fun entries => ?_)
  refine and_congr_right fun hv =>
    and_congr (forall₂_congr fun entry hm => ?_) List.forall_mem_map
  subst hv
  simp only [List.mem_map, exists_exists_and_eq_and]
  refine exists_congr fun m => and_congr_right fun hin => ?_
  exact and_congr_right fun _ => hs entry.2 (Tree.entry_mem_parts hm) m hin

theorem accepts_list_iff_conforms {d value : Tree}
    (hs : ∀ part ∈ value.parts, ∀ type ∈ elementTypes d,
      (Accepts r (r.resolve type) part ↔ NamedConforms components type part)) :
    Accepts r (.list ⟨(elementTypes d).eraseDups, bound? d .min, bound? d .max⟩) value ↔
      ListConforms components d value := by
  rw [accepts_list_iff, listConforms_iff]
  refine or_congr Iff.rfl (exists_congr fun elements => and_congr_right fun hv => ?_)
  subst hv
  refine and_congr (forall₂_congr fun element he => exists_congr fun tagged => ?_) Iff.rfl
  refine and_congr_right fun ht => forall₂_congr fun entry hm => ?_
  subst ht
  have hmem : entry.1 ∈ (elementTypes d).eraseDups ↔ entry.1 ∈ elementTypes d :=
    List.mem_eraseDups
  refine (and_congr_left' hmem).trans (and_congr_right fun hin => ?_)
  exact hs entry.2 (Tree.tagged_mem_parts he hm) entry.1 hin

/-- The registry and the definition agree on a value: it is accepted under the name of
a type exactly when it conforms to that type, and under the type of a component
exactly when it conforms to the component's own definition. -/
structure Agrees (components : Components) (r : Registry) (value : Tree) : Prop where
  named : ∀ {name}, IsItemType components name →
    (Accepts r (r.resolve name) value ↔ NamedConforms components name value)
  component : ∀ {path name d}, Occurs components path name d →
    (Accepts r (r.resolve (typeKey path name d)) value ↔ Conforms components d value)

/-- The descriptor of an origin hands the parts of a value on to types of the
definition. -/
theorem accepts_origin_iff (h : Compiled components own root r) {value : Tree}
    (hparts : ∀ part ∈ value.parts, Agrees components r part) {name : String} {origin : Origin}
    (hr : Resolves components name origin) :
    Accepts r (r.resolve name) value ↔ OriginConforms components origin value := by
  rw [h.resolve_eq hr]
  obtain ⟨object, -, -, hdesc⟩ := h.lookup hr
  generalize object.descriptor = descriptor at hdesc
  cases hdesc with
  | primitive kind => exact accepts_primitive_iff.trans accepts_iff_scalar
  | map ho hf hbody _ =>
    rw [Origin.descriptor, describe_map hf, OriginConforms, conforms_map hf]
    refine accepts_map_iff_conforms hbody.distinct fun part hp m hm => ?_
    exact (hparts part hp).component (.member ho hf hm)
  | list ho hf _ =>
    rw [Origin.descriptor, describe_list hf, OriginConforms, conforms_list hf]
    refine accepts_list_iff_conforms fun part hp type ht => ?_
    exact (hparts part hp).named ((h.listBody ho hf).known ht)

/-- The registry of a compiled definition agrees with the definition on every value.
The induction is over the parts of the value; the references on the way from one part
to the next are followed by `named_iff_origin`. -/
theorem agrees (h : Compiled components own root r) (value : Tree) :
    Agrees components r value := by
  induction value using Tree.part_induction with
  | step value ih =>
    have hnamed : ∀ {name}, IsItemType components name →
        (Accepts r (r.resolve name) value ↔ NamedConforms components name value) := by
      intro name hi
      have hresolves : ∃ origin, Resolves components name origin := by
        rcases hi with ⟨kind, rfl⟩ | ht
        · exact ⟨_, .kind kind⟩
        · exact h.top_resolves ht
      obtain ⟨origin, hr⟩ := hresolves
      rw [h.accepts_origin_iff ih hr, h.named_iff_origin hr hi]
    refine ⟨hnamed, ?_⟩
    intro path name d ho
    have hh := (h.placed h.keys ho).headed
    obtain ⟨form, hf⟩ := hh.form
    have hcomposite : Composite d →
        (Accepts r (r.resolve (typeKey path name d)) value ↔ Conforms components d value) := by
      intro hc
      rw [typeKey_composite hc]
      exact h.accepts_origin_iff ih (.component ho hc)
    cases form with
    | primitive kind =>
      rw [typeKey_of_form hf, conforms_primitive hf]
      exact h.accepts_origin_iff ih (.kind kind)
    | map => exact hcomposite (.inl hf)
    | list => exact hcomposite (.inr hf)
    | reference target =>
      rw [typeKey_of_form hf, conforms_reference hf]
      exact hnamed (.inr (hh.target hf))

end Compiled

/-- Compiling a definition with plain names and validating a document with the schema
agrees with the meaning of the definition. -/
theorem validate_ok_iff_conformsTo {definition : Tree} {schema : Schema}
    (hn : PlainNames definition.entries) (h : compile definition = .ok schema)
    (document : Tree) :
    schema.validate document = .ok () ↔ ConformsTo definition document := by
  obtain ⟨own, hc⟩ := compile_compiled hn h
  rw [Schema.validate, check_ok_iff, Schema.rootDescriptor, hc.items]
  refine Compiled.accepts_map_iff_conforms hc.distinct fun part _ m hm => ?_
  exact (hc.agrees part).component (.top (Entries.get?_of_mem hc.distinct hm))

/-- A tree with a node and an integer below its node conforms to the recursive
definition. -/
theorem treeDocument_conformsTo :
    PlainNames treeDefinition.entries ∧ compile treeDefinition = .ok treeSchema ∧
    ConformsTo treeDefinition (.map [("tree", .null), ("node", .map [("children",
      .list [.map [("node", .map [])], .map [("int", .int 3)]])])]) :=
  ⟨treeDefinition_plain, treeDefinition_compiles,
    (validate_ok_iff_conformsTo treeDefinition_plain treeDefinition_compiles _).mp rfl⟩

end ComponentSchema
