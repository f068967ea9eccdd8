import ComponentSchema.Proofs.Shadowing
import ComponentSchema.Proofs.Unresolved

/-!
# The grammar of definitions

A definition with plain names compiles exactly when it is well formed. Components with
the right attributes are registered from any registry, whatever is in progress there; a
definition that compiles has no component that was passed over.
-/

namespace ComponentSchema

open Registration Definition Relation

/-! ## Well-formed definitions -/

/-- Every component, at any depth, has the attributes that its type asks for, and no
chain of references comes back to where it started. -/
structure WellFormed (components : Components) : Prop where
  headed : ∀ {path name d}, Occurs components path name d → WellHeaded components d
  maps : ∀ {path name d}, Occurs components path name d → form? d = some .map → MapBody d
  lists : ∀ {path name d}, Occurs components path name d → form? d = some .list →
    ListBody (IsItemType components) d
  bounds : ∀ {path name d}, Occurs components path name d → form? d = some .list →
    ∀ (bound : Bound) (n : Int), d.get? bound.attribute = some (.int n) →
      n ≤ 18446744073709551615
  acyclic : ∀ name, ¬ TransGen (RefersTo components) name name

/-- A non-empty mapping of well-formed components. -/
def IsDefinition (definition : Tree) : Prop :=
  ∃ components, definition = .map components ∧ components ≠ [] ∧ WellFormed components

/-! ## Sound components are registered -/

/-- Every component that is not shadowed, at any depth, has the attributes that its type
asks for. -/
structure Sound (components : Components) : Prop where
  headed : ∀ {path name d}, Occurs (unshadowed components) path name d → WellHeaded components d
  maps : ∀ {path name d}, Occurs (unshadowed components) path name d → form? d = some .map →
    MapBody d
  lists : ∀ {path name d}, Occurs (unshadowed components) path name d → form? d = some .list →
    ListBody (IsItemType components) d

theorem WellFormed.sound {components : Components} (h : WellFormed components) :
    Sound components where
  headed ho := h.headed ho.of_unshadowed
  maps ho := h.maps ho.of_unshadowed
  lists ho := h.lists ho.of_unshadowed

section

variable {components : Components} {enter : String → Session Unit} {path : List String}
  {name : String} {d : Tree} {p : Progress}

theorem aliasPrimitive_succeeds (kind : PrimitiveKind) (hp : p.registry.Grounded) :
    ∃ q, Yields (aliasPrimitive name kind) p () q := by
  cases hn : p.registry.contains name with
  | true => exact ⟨p, yields_aliasPrimitive.mpr (.inl ⟨hn, rfl⟩)⟩
  | false =>
    obtain ⟨object, ho, -⟩ := hp.kinds kind
    exact ⟨_, yields_aliasPrimitive.mpr (.inr (.inr ⟨hn, object, ho, rfl⟩))⟩

theorem define_succeeds {body : Session Descriptor} (hp : p.registry.Grounded)
    (hb : ∀ {m : Progress}, m.registry.Grounded → ∃ descriptor q, Yields body m descriptor q) :
    ∃ q, Yields (define name body) p () q := by
  cases hn : p.registry.contains name with
  | true => exact ⟨p, yields_define.mpr (.inl ⟨hn, rfl⟩)⟩
  | false =>
    have hreserved : (p.update (·.reserve name)).registry.Grounded :=
      hp.reserve (Registry.not_contains_iff.mp hn)
    obtain ⟨descriptor, m, hm⟩ := hb hreserved
    exact ⟨_, yields_define.mpr (.inr ⟨hn, descriptor, m, hm, rfl⟩)⟩

theorem aliasTarget_succeeds {target : String} (hp : p.registry.Grounded)
    (he : ∀ {m : Progress}, m.registry.Grounded → ∃ q, Yields (enter target) m () q) :
    ∃ q, Yields (aliasTarget enter name target) p () q := by
  cases hn : p.registry.contains name with
  | true => exact ⟨p, yields_aliasTarget.mpr (.inl ⟨hn, rfl⟩)⟩
  | false =>
    have hreserved : (p.update (·.reserve name)).registry.Grounded :=
      hp.reserve (Registry.not_contains_iff.mp hn)
    obtain ⟨m, hm⟩ := he hreserved
    -- an unfinished target is no failure: the name is given up for now
    by_cases hf : m.registry.Finished target
    · obtain ⟨object, ho, hi⟩ := hf
      exact ⟨_, yields_aliasTarget.mpr (.inr ⟨hn, m, hm, .inr ⟨object, ho, hi, rfl⟩⟩)⟩
    · exact ⟨_, yields_aliasTarget.mpr (.inr ⟨hn, m, hm, .inl ⟨hf, rfl⟩⟩)⟩

/-- A shadowed component is passed over if it has the attributes of every component. -/
theorem register_shadowed_succeeds (hh : WellHeaded components d) (kind : PrimitiveKind)
    (hp : p.registry.Grounded) :
    ∃ key required q, Yields (register components enter [] kind.name d) p (key, required) q := by
  have hb := hp.contains_kind kind
  obtain ⟨form, hf⟩ := hh.form
  cases d with
  | map fields =>
    refine ⟨_, _, p, yields_register.mpr ⟨fields, form, rfl, hf, hh, rfl, rfl, ?_⟩⟩
    cases form with
    | primitive other => exact yields_aliasPrimitive.mpr (.inl ⟨hb, rfl⟩)
    | reference target => exact yields_aliasTarget.mpr (.inl ⟨hb, rfl⟩)
    | map => exact yields_define.mpr (.inl ⟨hb, rfl⟩)
    | list => exact yields_define.mpr (.inl ⟨hb, rfl⟩)
  | _ => cases hf

/-- A sequence of components is registered if each is and the names are distinct. -/
theorem addItems_succeeds (hc : ∀ target, Conservative (enter target)) {declared : Items}
    {group : List (String × Tree)}
    (hd : (declared.map Item.name ++ Entries.names group).Nodup)
    (hr : ∀ m ∈ group, ∀ {p : Progress}, p.registry.Grounded →
      ∃ key required q, Yields (register components enter path m.1 m.2) p (key, required) q)
    (hp : p.registry.Grounded) :
    ∃ items q, Yields (addItems components enter path declared group) p items q := by
  induction group generalizing declared p with
  | nil => exact ⟨declared, p, yields_pure.mpr ⟨rfl, rfl⟩⟩
  | cons component rest ih =>
    obtain ⟨name, d⟩ := component
    obtain ⟨key, required, m, hy⟩ := hr (name, d) List.mem_cons_self hp
    have hreg : Conservative (register components enter path name d) := .register hc path name d
    have hnew : declared.declares name = false := by
      rw [← Bool.not_eq_true, Items.declares_iff]
      intro hin
      exact (List.nodup_append.mp hd).2.2 name hin name List.mem_cons_self rfl
    have hnext : ((declared ++ [⟨name, key, required⟩] : Items).map Item.name ++
        Entries.names rest).Nodup := by
      rw [List.map_append, List.map_singleton, List.append_assoc]
      exact hd
    obtain ⟨items, q, hrest⟩ := ih hnext (fun m hin => hr m (List.mem_cons_of_mem _ hin))
      (hreg.yields hp hy).1
    exact ⟨items, q, yields_addItems_cons.mpr ⟨hnew, key, required, m, hy, hrest⟩⟩

variable (hc : ∀ target, Conservative (enter target))
  (he : ∀ {target : String} {p : Progress}, Entries.contains components target = true →
    p.registry.Grounded → ∃ q, Yields (enter target) p () q)

include hc he

theorem itemTypes_succeeds {entries : List Tree}
    (hs : ∀ entry ∈ entries, ∃ type, entry = .string type ∧ IsItemType components type)
    (hp : p.registry.Grounded) :
    ∃ names q, Yields (itemTypes components enter path entries) p names q := by
  induction entries generalizing p with
  | nil => exact ⟨[], p, yields_pure.mpr ⟨rfl, rfl⟩⟩
  | cons entry rest ih =>
    obtain ⟨type, rfl, ht⟩ := hs entry List.mem_cons_self
    have hrest := fun entry hin => hs entry (List.mem_cons_of_mem _ hin)
    cases hn : p.registry.contains type with
    | true =>
      obtain ⟨names, q, hy⟩ := ih hrest hp
      exact ⟨_, q, yields_itemTypes_cons.mpr ⟨type, names, p, rfl, rfl, .inl ⟨hn, rfl⟩, hy⟩⟩
    | false =>
      -- the kinds are always bound
      have htop : Entries.contains components type = true := by
        rcases ht with ⟨kind, rfl⟩ | ht
        · rw [hp.contains_kind kind] at hn
          cases hn
        · exact ht
      obtain ⟨m, hm⟩ := he htop hp
      obtain ⟨names, q, hy⟩ := ih hrest ((hc type).yields hp hm).1
      exact ⟨_, q, yields_itemTypes_cons.mpr
        ⟨type, names, m, rfl, rfl, .inr ⟨hn, htop, hm⟩, hy⟩⟩

theorem listBody_succeeds {fields : List (String × Tree)}
    (hb : ListBody (IsItemType components) (.map fields)) (hp : p.registry.Grounded) :
    ∃ descriptor q, Yields (listBody components enter path fields) p descriptor q := by
  obtain ⟨entries, hg, hne, hs⟩ := hb.entries
  obtain ⟨names, q, hy⟩ := itemTypes_succeeds hc he hs hp
  exact ⟨_, q, yields_listBody.mpr ⟨names, yields_itemTypesOf.mpr ⟨entries, hg, hne, hy⟩,
    hb.bounds, fun _ _ => hb.ordered, rfl⟩⟩

/-- A component of a sound definition is registered from any registry, if references are
followed. The induction is over the nesting of components. -/
theorem register_succeeds (hs : Sound components)
    (ho : Occurs (unshadowed components) path name d) (hp : p.registry.Grounded) :
    ∃ key required q, Yields (register components enter path name d) p (key, required) q := by
  induction d using nesting_induction generalizing path name p with
  | step d ih =>
    have hh := hs.headed ho
    obtain ⟨form, hf⟩ := hh.form
    cases d with
    | map fields =>
      suffices heffect : ∃ q, Yields (effect components enter path name fields form) p () q by
        obtain ⟨q, hq⟩ := heffect
        exact ⟨_, _, q, yields_register.mpr ⟨fields, form, rfl, hf, hh, rfl, rfl, hq⟩⟩
      cases form with
      | primitive kind =>
        rw [effect]
        split
        · exact aliasPrimitive_succeeds kind hp
        · exact ⟨p, yields_pure.mpr ⟨rfl, rfl⟩⟩
      | reference target =>
        have htop := hh.target hf
        rw [effect]
        split
        · exact aliasTarget_succeeds hp (he htop)
        · exact he htop hp
      | list => exact define_succeeds hp (listBody_succeeds hc he (hs.lists ho hf))
      | map =>
        have hbody := hs.maps ho hf
        refine define_succeeds hp fun hm => ?_
        obtain ⟨items, q, hy⟩ := addItems_succeeds hc
          (show ((([] : Items).map Item.name) ++ Entries.names (members (.map fields))).Nodup from
            hbody.distinct)
          (fun m hin p hp => ih m hin (.member ho hf hin) hp) hm
        exact ⟨_, q, yields_bind.mpr ⟨items, q, yields_mapBody.mpr ⟨hbody.groups, hy⟩,
          yields_pure.mpr ⟨rfl, rfl⟩⟩⟩
    | _ => cases hf

end

variable {components : Components}

/-- References between sound components are followed, whatever the budget. -/
theorem enterWithin_succeeds (hs : Sound components) {beyond : String → Session Unit}
    (hc : ∀ target, Conservative (beyond target))
    (he : ∀ {target : String} {p : Progress}, Entries.contains components target = true →
      p.registry.Grounded → ∃ q, Yields (beyond target) p () q)
    (budget : Nat) {target : String} {p : Progress}
    (ht : Entries.contains components target = true) (hp : p.registry.Grounded) :
    ∃ q, Yields (enterWithin components beyond budget target) p () q := by
  induction budget generalizing target p with
  | zero => exact he ht hp
  | succ budget ih =>
    cases hn : p.registry.contains target with
    | true => exact ⟨p, yields_enterWithin_succ.mpr (.inl ⟨hn, rfl⟩)⟩
    | false =>
      obtain ⟨d, hd⟩ := Entries.contains_iff_get?.mp ht
      obtain ⟨key, required, q, hy⟩ :=
        register_succeeds (.enterWithin hc budget) ih hs
          (.top (get?_unshadowed.mpr ⟨hd, ne_kind_of_unbound hp hn⟩)) hp
      exact ⟨q, yields_enterWithin_succ.mpr (.inr ⟨hn, d, key, required, hd, hy⟩)⟩

theorem enter_succeeds (hs : Sound components) {target : String} {p : Progress}
    (ht : Entries.contains components target = true) (hp : p.registry.Grounded) :
    ∃ q, Yields (enter components target) p () q :=
  enterWithin_succeeds hs (fun _ => .pure ())
    (fun {_ p} _ _ => ⟨p, yields_pure.mpr ⟨rfl, rfl⟩⟩) _ ht hp

/-- All components are registered if their names are distinct, all of them have the
attributes of every component, and those that are not shadowed are sound. -/
theorem registerAll_succeeds (hd : (Entries.names components).Nodup)
    (hh : ∀ m ∈ components, WellHeaded components m.2) (hs : Sound components) :
    ∃ root p, Yields (registerAll components) Progress.start root p := by
  refine addItems_succeeds (.enter_top components) hd (fun m hm p hp => ?_) .primitives
  -- the body of a component with the name of a kind is never read
  by_cases hk : ∃ kind : PrimitiveKind, m.1 = kind.name
  · obtain ⟨kind, hk⟩ := hk
    rw [hk]
    exact register_shadowed_succeeds (hh m hm) kind hp
  · exact register_succeeds (.enter_top components) (enter_succeeds hs) hs
      (.top (get?_unshadowed.mpr ⟨Entries.get?_of_mem hd hm, not_exists.mp hk⟩)) hp

/-! ## Compilation -/

theorem Occurs.isDocument {path : List String} {name : String} {d : Tree}
    (hd : (Tree.map components).IsDocument) (h : Occurs components path name d) :
    d.IsDocument := by
  induction h with
  | top hg => exact hd.get? hg
  | @member path owner name body d _ _ hm ih =>
    rw [members] at hm
    split at hm
    next groups hg =>
      obtain ⟨group, hin, hm⟩ := List.mem_flatMap.mp hm
      exact (Tree.isDocument_list.mp (ih.get? hg) group hin).entry hm
    next => cases hm

theorem wellFormed_of_compile {definition : Tree} {schema : Schema}
    (hd : definition.IsDocument) (hn : PlainNames definition.entries)
    (h : compile definition = .ok schema) : IsDefinition definition := by
  obtain ⟨own, hc⟩ := compile_compiled hn h
  obtain ⟨components, rfl, hne, -, -, hroot, -⟩ := compile_ok_iff.mp h
  refine ⟨components, rfl, hne, ?_, hc.mapBody hc.keys, hc.listBody, ?_, hc.acyclic hc.keys hroot⟩
  · intro path name d ho
    exact (hc.placed hc.keys ho).headed
  · intro path name d ho _ bound n hg
    exact ((Occurs.isDocument hd ho).get? hg).int_le

theorem compile_of_wellFormed {components : Components}
    (hd : (Tree.map components).IsDocument) (hn : PlainNames components) (hne : components ≠ [])
    (hw : WellFormed components) : ∃ schema, compile (.map components) = .ok schema := by
  have hdistinct : (Entries.names components).Nodup := (Tree.isDocument_map.mp hd).1
  have htops := fun m (hm : m ∈ components) => hw.headed (.top (Entries.get?_of_mem hdistinct hm))
  refine (compiles_iff_registers (names_dotFree hn.names)).mpr
    ⟨hne, registerAll_succeeds hdistinct htops hw.sound, ?_⟩
  intro name _
  exact not_endless_of_acyclic hw.acyclic

/-- The compiler accepts exactly the grammar: a document with plain names compiles
if and only if it is a non-empty mapping of well-formed components. -/
theorem compiles_iff_isDefinition {definition : Tree} (hd : definition.IsDocument)
    (hn : PlainNames definition.entries) :
    (∃ schema, compile definition = .ok schema) ↔ IsDefinition definition := by
  constructor
  · intro hx
    obtain ⟨schema, h⟩ := hx
    exact wellFormed_of_compile hd hn h
  · intro hx
    obtain ⟨components, rfl, hne, hw⟩ := hx
    exact compile_of_wellFormed hd hn hne hw

-- two references that only lead to each other
example : compile (.map [("a", .map [("type", .string "b")]), ("b", .map [("type", .string "a")])])
    = .error ⟨"", .unresolvedType "b"⟩ := rfl

theorem treeDefinition_isDocument : treeDefinition.IsDocument := by
  simp [treeDefinition, nodeDefinition, childrenDefinition, Entries.names, or_imp, forall_and]

/-- The recursive definition is in the grammar, although its node refers to itself. -/
theorem treeDefinition_isDefinition :
    treeDefinition.IsDocument ∧ PlainNames treeDefinition.entries ∧ IsDefinition treeDefinition :=
  ⟨treeDefinition_isDocument, treeDefinition_plain,
    (compiles_iff_isDefinition treeDefinition_isDocument treeDefinition_plain).mp
      ⟨treeSchema, treeDefinition_compiles⟩⟩

end ComponentSchema
