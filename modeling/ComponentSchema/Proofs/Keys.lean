import ComponentSchema.Proofs.Shadowing

/-!
# Keys of maps and lists

A map or a list is registered under its dotted name. It keeps a key of its own as long as
the dotted names tell the places of the maps and lists apart, which they do if no name has
a dot in it, and no map or list at the top level has the name of a kind. Otherwise two
places can have one dotted name, and the component that comes later is passed over.
-/

namespace ComponentSchema

open Registration Definition

/-- Every map and list is bound under its key to the descriptor of its own body, and no
two of them, at different places, have one key. -/
structure KeysKept (components : Components) (r : Registry) : Prop where
  own : ∀ {path name d}, Occurs components path name d → Composite d →
    ∃ object, r.get? (typeKey path name d) = some object ∧
      object.descriptor = describe path name d
  apart : ∀ {path name d path' name' d'}, Occurs components path name d → Composite d →
    Occurs components path' name' d' → Composite d' →
    typeKey path name d = typeKey path' name' d' → path = path' ∧ name = name' ∧ d = d'

variable {components : Components}

theorem describe_ne_primitive {path : List String} {name : String} {d : Tree} (h : Composite d)
    (kind : PrimitiveKind) : describe path name d ≠ .primitive kind := by
  rcases h with h | h
  · simp [describe_map h]
  · simp [describe_list h]

/-- A map or a list is not shadowed, and so nothing inside a map is, if no top-level map
or list has the name of a kind. -/
theorem Definition.Occurs.unshadowed
    (hk : ∀ (kind : PrimitiveKind) d, Entries.get? components kind.name = some d → ¬ Composite d)
    {path : List String} {name : String} {d : Tree} (h : Occurs components path name d)
    (hc : path ≠ [] ∨ Composite d) : Occurs (unshadowed components) path name d := by
  induction h with
  | @top name d hd =>
    refine .top (get?_unshadowed.mpr ⟨hd, fun kind he => ?_⟩)
    subst he
    exact hk kind d hd (hc.resolve_left fun hp => hp rfl)
  -- the owner of a member is a map, so it is not shadowed either
  | member _ hf hm ih => exact .member (ih (.inr (.inl hf))) hf hm

/-- The components that are not shadowed have their places when all are registered, and
a map or a list of theirs is bound to its own descriptor. -/
theorem Registered.keysKept {own : Nat → Origin} {root : Items} {r : Registry}
    (h : Registered (unshadowed components) own root r)
    (hn : KeysApart (unshadowed components))
    (hk : ∀ (kind : PrimitiveKind) d, Entries.get? components kind.name = some d → ¬ Composite d) :
    KeysKept components r where
  own ho hd := by
    have hplaced := h.placed hn (ho.unshadowed hk (.inr hd))
    obtain ⟨object, hg, -, hdesc⟩ := hplaced.bound hd
    rw [typeKey_composite hd]
    exact ⟨object, hg, hdesc.descriptor_eq⟩
  apart ho hd ho' hd' he := by
    rw [typeKey_composite hd, typeKey_composite hd'] at he
    have hplace := ho.unshadowed hk (.inr hd)
    have hplace' := ho'.unshadowed hk (.inr hd')
    obtain ⟨rfl, rfl⟩ := hn.places hplace hd hplace' hd' he
    exact ⟨rfl, rfl, (h.placed hn hplace).unique hplace'⟩

namespace KeysKept

variable {r : Registry}

theorem placesApart (h : KeysKept components r) : PlacesApart components := by
  intro path name d path' name' d' ho hc ho' hc' he
  rw [← typeKey_composite hc, ← typeKey_composite hc'] at he
  obtain ⟨hpath, hname, -⟩ := h.apart ho hc ho' hc' he
  exact ⟨hpath, hname⟩

/-- The name of a kind is bound to the kind, so it is not the key of a map or a list. -/
theorem not_composite (h : KeysKept components r) (hg : r.Grounded) (kind : PrimitiveKind)
    {d : Tree} (hd : Entries.get? components kind.name = some d) : ¬ Composite d := by
  intro hc
  obtain ⟨object, ho, hdesc⟩ := h.own (.top hd) hc
  obtain ⟨other, hother, hkind⟩ := hg.kinds kind
  rw [typeKey_composite hc, dottedName_top, hother] at ho
  cases ho
  exact describe_ne_primitive hc kind (hdesc.symm.trans hkind)

end KeysKept

/-- Unless a top-level alias has the dotted name of a map or a list, the maps and lists of a
compiled definition keep their keys exactly when different places have different dotted
names and no map or list at the top level has the name of a kind. -/
theorem keysKept_iff_placesApart {schema : Schema}
    (h : compile (.map components) = .ok schema) (ha : AliasesApart components) :
    KeysKept components schema.registry ↔ PlacesApart components ∧
      ∀ (kind : PrimitiveKind) d, Entries.get? components kind.name = some d → ¬ Composite d := by
  constructor
  · intro hkept
    exact ⟨hkept.placesApart, fun kind _ => hkept.not_composite (compile_grounded h) kind⟩
  · intro hx
    obtain ⟨hplaces, hk⟩ := hx
    obtain ⟨_, ⟨rfl⟩, -, trace, hy, -⟩ := compile_ok_iff.mp h
    obtain ⟨own, hreg⟩ := registered_unshadowed hy
    exact hreg.keysKept (keysApart_unshadowed hplaces ha) hk

/-- The key that the registration of a component returns is the name of its type. In a
compiled definition the maps and lists keep their keys exactly when their dotted names
tell their places apart and none at the top level has the name of a kind, unless a
top-level alias takes such a dotted name. If no name has a dot in it, the names of the
kinds are all that matters. -/
theorem keysKept_iff {components : Components} {schema : Schema}
    (h : compile (.map components) = .ok schema) :
    (∀ path name d p q key required, Yields (register components (enter components) path name d)
      p (key, required) q → key = typeKey path name d) ∧
    (AliasesApart components → (KeysKept components schema.registry ↔
      PlacesApart components ∧ ∀ (kind : PrimitiveKind) d,
        Entries.get? components kind.name = some d → ¬ Composite d)) ∧
    ((∀ {path name d}, Occurs components path name d → '.' ∉ name.toList) →
      (KeysKept components schema.registry ↔ ∀ (kind : PrimitiveKind) d,
        Entries.get? components kind.name = some d → ¬ Composite d)) := by
  refine ⟨?_, keysKept_iff_placesApart h, fun hdots => ?_⟩
  · intro path name d p q key required hy
    obtain ⟨-, -, -, -, -, hkey, -⟩ := yields_register.mp hy
    exact hkey.symm
  · rw [keysKept_iff_placesApart h (aliasesApart_of_dotFree hdots)]
    exact and_iff_right (placesApart_of_dotFree hdots)

/-- The node of the recursive definition and the list inside it have their own keys. -/
theorem treeSchema_keysKept :
    compile treeDefinition = .ok treeSchema ∧
      KeysKept treeDefinition.entries treeSchema.registry := by
  refine ⟨treeDefinition_compiles,
    ((keysKept_iff treeDefinition_compiles).2.2 treeDefinition_plain.names).mpr ?_⟩
  intro kind d hd
  cases (treeDefinition_plain.kinds kind).symm.trans hd

/-! ## Two places with one dotted name -/

def outerDefinition : Tree :=
  .map [("type", .string "map"), ("items", .list [.map [("x", .map [("type", .string "int")])]])]

def innerDefinition : Tree :=
  .map [("type", .string "map"), ("items", .list [.map [("y", .map [("type", .string "string")])]])]

/-- The item `b.c` of `a` and the item `c` of its item `b` have one dotted name. -/
def collidingDefinition : Tree :=
  .map [("a", .map [("type", .string "map"), ("items", .list [.map [("b.c", outerDefinition)],
    .map [("b", .map [("type", .string "map"),
      ("items", .list [.map [("c", innerDefinition)]])])]])])]

def collidingSchema : Schema where
  root := [⟨"a", "a", true⟩]
  registry :=
    { bindings := Registry.primitives.bindings ++
        [("a", ⟨9, .map [⟨"b.c", "a.b.c", true⟩, ⟨"b", "a.b", true⟩]⟩),
          ("a.b.c", ⟨6, .map [⟨"x", "int", true⟩]⟩),
          ("a.b", ⟨8, .map [⟨"c", "a.b.c", true⟩]⟩)]
      nextId := 10 }

/-- The two maps share the key `a.b.c`, which is bound to the descriptor of the outer
one, so a document that has the items of both is refused. -/
theorem collidingSchema_shares_key :
    compile collidingDefinition = .ok collidingSchema ∧
    Occurs collidingDefinition.entries ["a"] "b.c" outerDefinition ∧
    Occurs collidingDefinition.entries ["a", "b"] "c" innerDefinition ∧
    typeKey ["a"] "b.c" outerDefinition = typeKey ["a", "b"] "c" innerDefinition ∧
    collidingSchema.registry.resolve (typeKey ["a", "b"] "c" innerDefinition) ≠
      describe ["a", "b"] "c" innerDefinition ∧
    collidingSchema.validate (.map [("a", .map [("b.c", .map [("x", .int 1)]),
      ("b", .map [("c", .map [("y", .string "s")])])])]) =
        .error ⟨"a.b.c", .unexpectedItem "y"⟩ := by
  have hy : Yields (registerAll collidingDefinition.entries) Progress.start collidingSchema.root
      ⟨collidingSchema.registry, [.component "a.b.c" "map", .component "a.b" "map",
        .component "a" "map"]⟩ := rfl
  have hcompile : compile collidingDefinition = .ok collidingSchema :=
    compile_ok_of_run (by decide) hy (by decide) (by decide)
  have ha : Occurs collidingDefinition.entries [] "a" _ := .top rfl
  have hb : Occurs collidingDefinition.entries ["a"] "b" _ :=
    .member ha rfl (List.mem_cons_of_mem _ List.mem_cons_self)
  exact ⟨hcompile, .member ha rfl List.mem_cons_self, .member hb rfl List.mem_cons_self, rfl,
    by decide, rfl⟩

end ComponentSchema
