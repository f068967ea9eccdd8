import ComponentSchema.Proofs.Grammar

/-!
# The order of declaration

A definition is read through its lookups: what a name stands for, which components are
sound and which chains of references end is the same for every order of the top-level
components. So is the outcome of a compilation, except for a list that names a map or a
list inside another component: such a name is known only once it is registered.
-/

namespace ComponentSchema

open Registration Definition

/-! ## Definitions with the same lookups -/

/-- Every name is looked up alike. -/
def Agree (components components' : Components) : Prop :=
  ∀ name, Entries.get? components name = Entries.get? components' name

namespace Agree

variable {components components' : Components}

theorem symm (h : Agree components components') : Agree components' components :=
  fun name => (h name).symm

theorem of_perm (h : components.Perm components') (hd : (Entries.names components).Nodup) :
    Agree components components' :=
  Entries.get?_perm h hd

variable (h : Agree components components')

include h

theorem contains {name : String} (hc : Entries.contains components name = true) :
    Entries.contains components' name = true := by
  rwa [Entries.contains, ← h name]

theorem unshadowed : Agree (unshadowed components) (unshadowed components') := by
  intro name
  refine Option.ext fun d => ?_
  rw [get?_unshadowed, get?_unshadowed, h name]

theorem occurs {path : List String} {name : String} {d : Tree}
    (ho : Occurs components path name d) : Occurs components' path name d := by
  induction ho with
  | top hd => exact .top (h _ ▸ hd)
  | member _ hf hm ih => exact .member ih hf hm

theorem resolves {name : String} {origin : Origin} (hr : Resolves components name origin) :
    Resolves components' name origin := by
  induction hr with
  | kind kind => exact .kind kind
  | component ho hc => exact .component (h.occurs ho) hc
  | primitiveAlias hd hf => exact .primitiveAlias (h _ ▸ hd) hf
  | reference hd hf _ ih => exact .reference (h _ ▸ hd) hf ih

theorem endless {name : String} (he : Endless components name) : Endless components' name := by
  obtain ⟨chain, hstart, hc⟩ := he
  refine ⟨chain, hstart, fun n => ?_⟩
  obtain ⟨d, hd, hf⟩ := hc n
  exact ⟨d, h _ ▸ hd, hf⟩

theorem wellHeaded {d : Tree} (hh : WellHeaded components d) : WellHeaded components' d :=
  hh.mono fun _ hc => .inr (h.contains hc)

theorem sound (hs : Sound components) : Sound components' where
  headed ho := h.wellHeaded (hs.headed (h.symm.unshadowed.occurs ho))
  maps ho := hs.maps (h.symm.unshadowed.occurs ho)
  lists ho hf := (hs.lists (h.symm.unshadowed.occurs ho) hf).mono
    fun _ _ hk => hk.imp_right h.contains

end Agree

/-! ## What compiles -/

/-- No list allows a map or a list that stands inside another component. -/
def NestedUnnamed (components : Components) : Prop :=
  ∀ {path name d path' name' d'}, Occurs components path name d → form? d = some .list →
    Occurs components path' name' d' → Composite d' → path' ≠ [] →
    dottedName path' name' ∉ elementTypes d

theorem Agree.nestedUnnamed {components components' : Components}
    (h : Agree components components') (hl : NestedUnnamed components) :
    NestedUnnamed components' := by
  intro path name d path' name' d' ho hf ho'
  exact hl (h.symm.occurs ho) hf (h.symm.occurs ho')

section

variable {components : Components}
  (hdots : ∀ {path name d}, Occurs components path name d → '.' ∉ name.toList)

include hdots

/-- What was registered is sound. A list can only name what was registered before it. -/
theorem sound_of_registered (hl : NestedUnnamed components) {root : Items} {p : Progress}
    (h : Yields (registerAll components) Progress.start root p) : Sound components := by
  obtain ⟨own, hreg⟩ := registered_unshadowed h
  have hkeys := keysApart_unshadowed_of_dotFree hdots
  refine ⟨fun ho => ?_, hreg.mapBody hkeys, fun ho hf => ?_⟩
  · exact (hreg.placed hkeys ho).headed.mono fun _ hc => .inr (contains_unshadowed.mp hc).1
  · refine (hreg.listBody_nameable hkeys ho hf).mono fun type ht hk => ?_
    rcases hk with hk | hk
    · exact .inl hk
    · cases hk with
      | top hd => exact .inr (Entries.contains_of_get? (get?_unshadowed.mp hd).1)
      -- such a name would be accepted for having been registered before the list
      | nested ho' hp hc => exact absurd ht (hl ho.of_unshadowed hf ho'.of_unshadowed hc hp)

/-- When a definition whose names have no dots compiles is said by its lookups, if no list
names a nested component. -/
theorem compiles_iff_sound (hl : NestedUnnamed components) :
    (∃ schema, compile (.map components) = .ok schema) ↔ components ≠ [] ∧
      (Entries.names components).Nodup ∧ (∀ m ∈ components, WellHeaded components m.2) ∧
      Sound components ∧ ∀ name ∈ Entries.names components, ¬ Endless components name := by
  rw [compiles_iff_registers (names_dotFree hdots)]
  constructor
  · intro hx
    obtain ⟨hne, ⟨root, p, hy⟩, hends⟩ := hx
    obtain ⟨-, -, hvisited⟩ := registerAll_moves hy
    exact ⟨hne, yields_addItems_nodup (by simp) hy, fun m hm => (hvisited m hm).headed,
      sound_of_registered hdots hl hy, hends⟩
  · intro hx
    obtain ⟨hne, hd, hh, hs, hends⟩ := hx
    exact ⟨hne, registerAll_succeeds hd hh hs, hends⟩

/-- The registry of a compiled definition is told by the components that are not
shadowed. -/
theorem compile_linked {schema : Schema} (h : compile (.map components) = .ok schema) :
    ∃ own, Linked (unshadowed components) own ((unshadowed components).map (item []))
      schema.registry := by
  obtain ⟨_, ⟨rfl⟩, -, trace, hy, hroot, -⟩ := compile_ok_iff.mp h
  obtain ⟨own, hreg⟩ := registered_unshadowed hy
  refine ⟨own, hreg, keysApart_unshadowed_of_dotFree hdots, ?_⟩
  intro name ht
  have htop := (contains_unshadowed.mp ht).1
  exact top_finished_of_not_endless hy htop
    ((root_closed_iff (names_dotFree hdots) hy).mp hroot name (Entries.contains_iff_mem.mp htop))

end

/-! ## Permuted definitions -/

variable {components components' : Components}

theorem names_nodup_of_compile {schema : Schema}
    (h : compile (.map components) = .ok schema) : (Entries.names components).Nodup := by
  obtain ⟨_, ⟨rfl⟩, -, trace, hy, -⟩ := compile_ok_iff.mp h
  exact yields_addItems_nodup (by simp) hy

/-- Another order of the same components compiles too. -/
theorem compiles_of_perm (hperm : components.Perm components')
    (hdots : ∀ {path name d}, Occurs components path name d → '.' ∉ name.toList)
    (hl : NestedUnnamed components) (h : ∃ schema, compile (.map components) = .ok schema) :
    ∃ schema, compile (.map components') = .ok schema := by
  obtain ⟨hne, hd, hh, hs, hends⟩ := (compiles_iff_sound hdots hl).mp h
  have hagree := Agree.of_perm hperm hd
  have hnames : (Entries.names components).Perm (Entries.names components') := hperm.map _
  refine (compiles_iff_sound (fun ho => hdots (hagree.symm.occurs ho))
    (hagree.nestedUnnamed hl)).mpr ⟨?_, hnames.nodup hd, ?_, hagree.sound hs, ?_⟩
  · intro hnil
    exact hne (List.perm_nil.mp (hnil ▸ hperm))
  · intro m hm
    exact hagree.wellHeaded (hh m (hperm.mem_iff.mpr hm))
  · intro name hm he
    exact hends name (hnames.mem_iff.mpr hm) (hagree.symm.endless he)

/-- Two orders of the same components, whose names have no dots, both compile or both do
not, if no list names a nested component. Whenever both compile, their registries bind the
same names to the same descriptors. -/
theorem compile_perm (hperm : components.Perm components')
    (hdots : ∀ {path name d}, Occurs components path name d → '.' ∉ name.toList) :
    (NestedUnnamed components → ((∃ schema, compile (.map components) = .ok schema) ↔
      ∃ schema, compile (.map components') = .ok schema)) ∧
    ∀ schema schema', compile (.map components) = .ok schema →
      compile (.map components') = .ok schema' → ∀ name,
      (schema.registry.get? name).map DescriptorObject.descriptor =
        (schema'.registry.get? name).map DescriptorObject.descriptor := by
  refine ⟨fun hl => ⟨compiles_of_perm hperm hdots hl, ?_⟩, ?_⟩
  · -- the names are known to be distinct only from the other side
    intro hx
    obtain ⟨schema, hs⟩ := id hx
    have hagree := (Agree.of_perm hperm.symm (names_nodup_of_compile hs)).symm
    exact compiles_of_perm hperm.symm (fun ho => hdots (hagree.symm.occurs ho))
      (hagree.nestedUnnamed hl) hx
  · intro schema schema' hs hs' name
    have hagree := Agree.of_perm hperm (names_nodup_of_compile hs)
    obtain ⟨own, hlinked⟩ := compile_linked hdots hs
    obtain ⟨own', hlinked'⟩ := compile_linked (fun ho => hdots (hagree.symm.occurs ho)) hs'
    -- both registries hold what the names stand for
    refine Option.ext fun descriptor => ?_
    rw [hlinked.get?_descriptor_iff, hlinked'.get?_descriptor_iff]
    exact exists_congr fun origin => and_congr_left fun _ =>
      ⟨hagree.unshadowed.resolves, hagree.symm.unshadowed.resolves⟩

/-- The recursive definition with the node before its other name. -/
def swappedTree : Components :=
  [("node", nodeDefinition), ("tree", .map [("type", .string "node")])]

theorem treeDefinition_nestedUnnamed : NestedUnnamed treeDefinition.entries := by
  intro path name d path' name' d' ho hf ho' hc hp hm
  exact treeDefinition_plain.itemTypes ho hf _ hm (dot_mem_dottedName hp)

/-- The node is registered in its own turn or through its other name, with the same
result. -/
theorem swappedTree_compiles :
    treeDefinition.entries.Perm swappedTree ∧ ∃ schema, compile (.map swappedTree) = .ok schema ∧
      ∀ name, (treeSchema.registry.get? name).map DescriptorObject.descriptor =
        (schema.registry.get? name).map DescriptorObject.descriptor := by
  have hperm : treeDefinition.entries.Perm swappedTree := .swap _ _ _
  obtain ⟨hcompiles, hsame⟩ := compile_perm hperm treeDefinition_plain.names
  obtain ⟨schema, hs⟩ :=
    (hcompiles treeDefinition_nestedUnnamed).mp ⟨treeSchema, treeDefinition_compiles⟩
  exact ⟨hperm, schema, hs, hsame _ _ treeDefinition_compiles hs⟩

/-! ## A list that names a nested component -/

def innerListDefinition : Tree :=
  .map [("type", .string "list"), ("item_types", .list [.string "int"])]

def ownerDefinition : Tree :=
  .map [("type", .string "map"), ("items", .list [.map [("b", innerListDefinition)]])]

def outerListDefinition : Tree :=
  .map [("type", .string "list"), ("item_types", .list [.string "a.b"])]

/-- The list `l` allows the list `b` inside `a`, by its dotted name. -/
def nestedComponents : Components := [("a", ownerDefinition), ("l", outerListDefinition)]

def nestedSchema : Schema where
  root := [⟨"a", "a", true⟩, ⟨"l", "l", true⟩]
  registry :=
    { bindings := Registry.primitives.bindings ++
        [("a", ⟨7, .map [⟨"b", "a.b", true⟩]⟩), ("a.b", ⟨6, .list ⟨["int"], none, none⟩⟩),
          ("l", ⟨9, .list ⟨["a.b"], none, none⟩⟩)]
      nextId := 10 }

theorem nestedComponents_occurs {path : List String} {name : String} {d : Tree}
    (h : Occurs nestedComponents path name d) :
    (name = "a" ∧ d = ownerDefinition) ∨ (name = "l" ∧ d = outerListDefinition) ∨
    (name = "b" ∧ d = innerListDefinition) := by
  induction h with
  | top hd =>
    have hm := Entries.mem_of_get? hd
    rw [nestedComponents, List.mem_cons, List.mem_singleton, Prod.mk.injEq, Prod.mk.injEq] at hm
    exact hm.imp_right .inl
  | member _ hf hm ih =>
    rcases ih with ⟨rfl, rfl⟩ | ⟨rfl, rfl⟩ | ⟨rfl, rfl⟩
    · exact .inr (.inr (by
        simpa [ownerDefinition, members, Tree.get?, Entries.get?, Tree.entries] using hm))
    · cases hf
    · cases hf

/-- The dotted name of the inner list is known to the outer one only after `a` is
registered, so the definition compiles in one order and not in the other. -/
theorem nestedComponents_order_matters :
    (∀ path name d, Occurs nestedComponents path name d → '.' ∉ name.toList) ∧
    nestedComponents.Perm nestedComponents.reverse ∧
    compile (.map nestedComponents) = .ok nestedSchema ∧
    compile (.map nestedComponents.reverse) = .error ⟨"", .unknownType "a.b"⟩ := by
  have hy : Yields (registerAll nestedComponents) Progress.start nestedSchema.root
      ⟨nestedSchema.registry, [.component "a.b" "list", .component "a" "map",
        .component "l" "list"]⟩ := rfl
  refine ⟨?_, (List.reverse_perm _).symm,
    compile_ok_of_run (by decide) hy (by decide) (by decide), rfl⟩
  intro path name d ho
  rcases nestedComponents_occurs ho with ⟨rfl, -⟩ | ⟨rfl, -⟩ | ⟨rfl, -⟩ <;> decide

end ComponentSchema
