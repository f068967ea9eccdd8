import ComponentSchema.Proofs.Compiled

/-!
# The registry as a blueprint

The registry of a compiled definition with plain names can be drawn up without
registering anything: which names it binds, the descriptor under each, and which
names share an object are all read off the definition.
-/

namespace ComponentSchema

open Registration Definition

namespace Compiled

variable {components : Components} {own : Nat → Origin} {root : Items} {r : Registry}

/-- The names are the kinds, the top-level names and the dotted names of the nested
maps and lists. -/
theorem contains_iff (h : Compiled components own root r) {name : String} :
    r.contains name = true ↔ (∃ kind : PrimitiveKind, name = kind.name) ∨
      name ∈ Entries.names components ∨
      ∃ path owner d, Occurs components path owner d ∧ path ≠ [] ∧ Composite d ∧
        name = ".".intercalate (path ++ [owner]) := by
  constructor
  · intro hc
    rcases h.faithful.named hc with hk | hk
    · exact .inl hk
    · cases hk with
      | top hd => exact .inr (.inl (Entries.mem_names_iff_get?.mpr ⟨_, hd⟩))
      | nested ho hp hd =>
        exact .inr (.inr ⟨_, _, _, ho, hp, hd, dottedName_eq_intercalate _ _⟩)
  · intro hname
    rcases hname with ⟨kind, rfl⟩ | ht | ⟨path, owner, d, ho, -, hd, rfl⟩
    · exact h.faithful.grounded.contains_kind kind
    · exact (h.tops (Entries.contains_iff_mem.mpr ht)).contains
    · obtain ⟨object, hg, -⟩ := (h.placed h.keys ho).bound hd
      rw [← dottedName_eq_intercalate]
      exact Registry.contains_of_get? hg

/-- Each bound name stands for exactly one origin, and is bound to its descriptor. -/
theorem descriptor_eq (h : Compiled components own root r) {name : String}
    {object : DescriptorObject} (ho : r.get? name = some object) :
    ∃ origin, Resolves components name origin ∧
      (∀ other, Resolves components name other → other = origin) ∧
      object.descriptor = origin.descriptor := by
  have hb := h.faithful.owned ho (h.descriptor_ne ho)
  refine ⟨own object.id, hb.stands, ?_, hb.described.descriptor_eq⟩
  intro other hother
  exact hother.unique h.keys h.place_unique hb.stands

/-- Two names share their object exactly when they stand for one origin. -/
theorem id_eq_iff (h : Compiled components own root r) {a b : String}
    {first second : DescriptorObject} (ha : r.get? a = some first) (hb : r.get? b = some second) :
    first.id = second.id ↔
      ∃ origin, Resolves components a origin ∧ Resolves components b origin := by
  obtain ⟨hra, hka, -, -⟩ := h.faithful.owned ha (h.descriptor_ne ha)
  obtain ⟨hrb, hkb, -, -⟩ := h.faithful.owned hb (h.descriptor_ne hb)
  constructor
  · intro hid
    rw [hid] at hra
    exact ⟨own second.id, hra, hrb⟩
  · intro hx
    obtain ⟨origin, hoa, hob⟩ := hx
    -- both objects are the one that the key of the origin is bound to
    rw [hra.unique h.keys h.place_unique hoa] at hka
    rw [hrb.unique h.keys h.place_unique hob, hka] at hkb
    cases hkb
    rfl

end Compiled

/-- The registry of a compiled definition with plain names binds the kinds, the
top-level names and the nested maps and lists, each name to the descriptor of what
it stands for, and two names to one object if and only if they stand for the same. -/
theorem compiled_registry_eq_blueprint {definition : Tree} {schema : Schema}
    (hn : PlainNames definition.entries) (h : compile definition = .ok schema) :
    (∀ name, schema.registry.contains name = true ↔
      (∃ kind : PrimitiveKind, name = kind.name) ∨ name ∈ Entries.names definition.entries ∨
      ∃ path owner d, Occurs definition.entries path owner d ∧ path ≠ [] ∧ Composite d ∧
        name = ".".intercalate (path ++ [owner])) ∧
    (∀ name object, schema.registry.get? name = some object →
      ∃ origin, Resolves definition.entries name origin ∧
        (∀ other, Resolves definition.entries name other → other = origin) ∧
        object.descriptor = origin.descriptor) ∧
    ∀ a b first second, schema.registry.get? a = some first →
      schema.registry.get? b = some second →
      (first.id = second.id ↔ ∃ origin, Resolves definition.entries a origin ∧
        Resolves definition.entries b origin) := by
  obtain ⟨own, hc⟩ := compile_compiled hn h
  exact ⟨fun _ => hc.contains_iff, fun _ _ => hc.descriptor_eq,
    fun _ _ _ _ ha hb => hc.id_eq_iff ha hb⟩

/-- In the schema of the recursive definition `tree` and `node` stand for the same
map. -/
theorem treeSchema_shares :
    PlainNames treeDefinition.entries ∧ compile treeDefinition = .ok treeSchema ∧
    ∃ origin, Resolves treeDefinition.entries "tree" origin ∧
      Resolves treeDefinition.entries "node" origin :=
  ⟨treeDefinition_plain, treeDefinition_compiles,
    ((compiled_registry_eq_blueprint treeDefinition_plain treeDefinition_compiles).2.2
      "tree" "node" _ _ rfl rfl).mp rfl⟩

end ComponentSchema
