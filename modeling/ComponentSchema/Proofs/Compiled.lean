import ComponentSchema.Proofs.Chains
import ComponentSchema.Proofs.Faithful
import ComponentSchema.Proofs.Linking

/-!
# The registry at the end

When all components of a definition are registered, every map and list in it is bound
under its own name to its own descriptor, at any depth, if the dotted names tell their
places apart. If the chains of references end, every top-level component is bound too,
and what a name is bound to is what it stands for.
-/

namespace ComponentSchema

open Registration Definition Relation

variable {components : Components}

/-! ## After the registration -/

/-- What holds when every component was registered, before linking. -/
structure Registered (components : Components) (own : Nat → Origin) (root : Items)
    (r : Registry) : Prop where
  faithful : Faithful components own r
  distinct : (Entries.names components).Nodup
  items : root = components.map (item [])
  visited : ∀ {name d}, Entries.get? components name = some d → Visited components r [] name d
  complete : ∀ {name}, ¬ r.Placeholder name

theorem start_not_placeholder {name : String} : ¬ Progress.start.registry.Placeholder name := by
  intro hx
  obtain ⟨object, ho, hi⟩ := hx
  obtain ⟨kind, -, rfl⟩ := Registry.get?_primitives ho
  cases hi

/-- Registering all components makes only moves, visits every one, and gives the items
of the root map. -/
theorem registerAll_moves {root : Items} {p : Progress}
    (h : Yields (registerAll components) Progress.start root p) :
    Moves components Progress.start p ∧ root = components.map (item []) ∧
      ∀ m ∈ components, Visited components p.registry [] m.1 m.2 := by
  have hdistinct : (Entries.names components).Nodup := yields_addItems_nodup (by simp) h
  exact addItems_moves (.enter_top components)
    (fun m hm p q key required hp hy => register_moves (.enter_top components) enter_moves
      (.top (Entries.get?_of_mem hdistinct hm)) hp hy) .primitives h

theorem registerAll_not_placeholder {root : Items} {p : Progress}
    (h : Yields (registerAll components) Progress.start root p) {name : String} :
    ¬ p.registry.Placeholder name := by
  have hc : Conservative (registerAll components) := .addItems (.enter_top components) _ _ _
  obtain ⟨-, he⟩ := hc.yields .primitives h
  exact fun hp => start_not_placeholder (he.placeholder_iff.mp hp)

theorem yields_registered {root : Items} {p : Progress}
    (h : Yields (registerAll components) Progress.start root p) :
    ∃ own, Registered components own root p.registry := by
  obtain ⟨hmoves, hroot, hvisited⟩ := registerAll_moves h
  obtain ⟨own, hf⟩ := Faithful.of_moves hmoves
  refine ⟨own, hf, yields_addItems_nodup (by simp) h, hroot, ?_, registerAll_not_placeholder h⟩
  intro name d hd
  exact hvisited (name, d) (Entries.mem_of_get? hd)

/-- Registering a sequence of top-level components finishes each of them whose chain
of references is clear, whatever becomes of the others. -/
theorem addItems_settles {declared items : Items} {group : List (String × Tree)} {p q : Progress}
    (hp : p.registry.Grounded) (hg : ∀ m ∈ group, Entries.get? components m.1 = some m.2)
    (h : Yields (addItems components (enter components) [] declared group) p items q) :
    ∀ m ∈ group, Clear components p.registry m.1 → q.registry.Finished m.1 := by
  induction group generalizing declared p with
  | nil => simp
  | cons component rest ih =>
    obtain ⟨name, d⟩ := component
    obtain ⟨-, typeName, required, m, hy, hrest⟩ := yields_addItems_cons.mp h
    have hreg : Conservative (register components (enter components) [] name d) :=
      .register (.enter_top components) [] name d
    obtain ⟨hm, he⟩ := hreg.yields hp hy
    intro other hin hclear
    rcases List.mem_cons.mp hin with rfl | hin
    · -- the target is entered with `name` reserved, and the chain behind it stays clear
      have hfirst : m.registry.Finished name := by
        refine register_settles (.enter_top components) enter_moves
          (hg (name, d) List.mem_cons_self) hp hclear ?_ hy
        intro target n href htarget hn hy
        exact enter_settles (hp.reserve (Registry.not_contains_iff.mp hn)) htarget
          (hclear.reserve href) hy
      have htail : Conservative (addItems components (enter components) []
          (declared ++ [⟨name, typeName, required⟩]) rest) :=
        .addItems (.enter_top components) _ _ _
      exact (htail.yields hm hrest).2.finished hfirst
    · exact ih hm (fun m hin => hg m (List.mem_cons_of_mem _ hin)) hrest other hin
        (hclear.extend he)

/-- A top-level name is finished if no chain of references that starts at it is
cyclic. -/
theorem yields_top {root : Items} {p : Progress}
    (h : Yields (registerAll components) Progress.start root p) {name : String}
    (ht : Entries.contains components name = true)
    (hacyclic : ∀ other, ReflTransGen (RefersTo components) name other →
      ¬ TransGen (RefersTo components) other other) : p.registry.Finished name := by
  obtain ⟨d, hd⟩ := Entries.contains_iff_get?.mp ht
  have hdistinct : (Entries.names components).Nodup := yields_addItems_nodup (by simp) h
  refine addItems_settles .primitives (fun m hm => Entries.get?_of_mem hdistinct hm) h
    (name, d) (Entries.mem_of_get? hd) ?_
  intro other ho
  exact ⟨start_not_placeholder, hacyclic other ho⟩

/-- If no chain of references is cyclic, every top-level name is finished. -/
theorem yields_tops {root : Items} {p : Progress}
    (hacyclic : ∀ name, ¬ TransGen (RefersTo components) name name)
    (h : Yields (registerAll components) Progress.start root p) {name : String}
    (ht : Entries.contains components name = true) : p.registry.Finished name :=
  yields_top h ht fun other _ => hacyclic other

/-! ## Every component is bound to its own descriptor -/

theorem Occurs.member_iff {path : List String} {owner name : String} {d : Tree} :
    Occurs components (path ++ [owner]) name d ↔ ∃ body, Occurs components path owner body ∧
      form? body = some .map ∧ (name, d) ∈ members body := by
  constructor
  · intro h
    generalize hp : path ++ [owner] = full at h
    cases h with
    | top _ => simp at hp
    | member ho hf hm =>
      obtain ⟨rfl, howner⟩ := List.append_inj' hp rfl
      obtain ⟨rfl, -⟩ := List.cons.inj howner
      exact ⟨_, ho, hf, hm⟩
  · intro hx
    obtain ⟨body, ho, hf, hm⟩ := hx
    exact .member ho hf hm

namespace Registered

variable {own : Nat → Origin} {root : Items} {r : Registry}

theorem descriptor_ne (h : Registered components own root r) {name : String}
    {object : DescriptorObject} (ho : r.get? name = some object) :
    object.descriptor ≠ .incomplete := by
  intro hi
  exact h.complete ⟨object, ho, hi⟩

theorem finished (h : Registered components own root r) {name : String}
    (hc : r.contains name = true) : r.Finished name :=
  (Registry.finished_or_placeholder hc).resolve_right h.complete

/-- The component has a good head, it is the only one at its place, and if it is
composite, its dotted name is bound to an object of which it is the origin. -/
structure Placed (components : Components) (own : Nat → Origin) (r : Registry)
    (path : List String) (name : String) (d : Tree) : Prop where
  headed : WellHeaded components d
  unique : ∀ {d'}, Occurs components path name d' → d = d'
  bound : Composite d → ∃ object, r.get? (dottedName path name) = some object ∧
    own object.id = .component path name d ∧
    Described components (.component path name d) object.descriptor

/-- A component whose dotted name is bound is the origin of what it is bound to, if
it is the only one at its place. -/
theorem owns (h : Registered components own root r) (hn : KeysApart components)
    {path : List String} {name : String} {d : Tree} (ho : Occurs components path name d)
    (hu : ∀ {d'}, Occurs components path name d' → d = d') (hd : Composite d)
    (hc : r.contains (dottedName path name) = true) :
    ∃ object, r.get? (dottedName path name) = some object ∧
      own object.id = .component path name d ∧
      Described components (.component path name d) object.descriptor := by
  obtain ⟨object, hg, hi⟩ := h.finished hc
  have hb := h.faithful.owned hg hi
  obtain ⟨d', hown, ho'⟩ := hb.stands.of_composite hn ho hd
  have hdesc := hb.described
  rw [hown, ← hu ho'] at hdesc
  exact ⟨object, hg, by rw [hown, ← hu ho'], hdesc⟩

/-- Every component has its place. The induction is over the nesting of components:
the body of a map is known from the descriptor it was built into. -/
theorem placed (h : Registered components own root r) (hn : KeysApart components)
    {path : List String} {name : String} {d : Tree} (ho : Occurs components path name d) :
    Placed components own r path name d := by
  induction ho with
  | @top name d hd =>
    have hv := h.visited hd
    have hu : ∀ {d'}, Occurs components [] name d' → d = d' := by
      intro d' ho'
      have hd' := Occurs.top_iff.mp ho'
      rw [hd] at hd'
      cases hd'
      rfl
    exact ⟨hv.headed, hu, fun hc => h.owns hn (.top hd) hu hc (hv.bound hc)⟩
  | @member path owner name body d ho hf hm ih =>
    obtain ⟨object, hg, hown, hdesc⟩ := ih.bound (.inl hf)
    have hsettled := (h.faithful.owned hg (h.descriptor_ne hg)).members
    rw [hown] at hsettled
    obtain ⟨hbody, hheaded⟩ := hdesc.of_map hf
    -- another component at this place is a member of the same body, which repeats no name
    have hu : ∀ {d'}, Occurs components (path ++ [owner]) name d' → d = d' := by
      intro d' ho'
      obtain ⟨body', hbody', -, hm'⟩ := Occurs.member_iff.mp ho'
      rw [← ih.unique hbody'] at hm'
      have hd := Entries.get?_of_mem hbody.distinct hm
      rw [Entries.get?_of_mem hbody.distinct hm'] at hd
      cases hd
      rfl
    refine ⟨hheaded (name, d) hm, hu, fun hc => ?_⟩
    refine h.owns hn (.member ho hf hm) hu hc ?_
    rcases hsettled hf (name, d) hm hc with hb | ⟨target, d', hd', -⟩
    · exact hb
    · -- a nested dotted name is not that of a top-level reference
      exact absurd (hn.top (.member ho hf hm) hc hd').1 (by simp)

theorem mapBody (h : Registered components own root r) (hn : KeysApart components)
    {path : List String} {name : String} {d : Tree} (ho : Occurs components path name d)
    (hf : form? d = some .map) : MapBody d := by
  obtain ⟨object, -, -, hdesc⟩ := (h.placed hn ho).bound (.inl hf)
  exact (hdesc.of_map hf).1

theorem listBody_nameable (h : Registered components own root r) (hn : KeysApart components)
    {path : List String} {name : String} {d : Tree} (ho : Occurs components path name d)
    (hf : form? d = some .list) : ListBody (Nameable components) d := by
  obtain ⟨object, -, -, hdesc⟩ := (h.placed hn ho).bound (.inr hf)
  exact hdesc.of_list hf

end Registered

/-! ## After linking -/

/-- What holds of a registry whose keys are apart when every top-level name is
finished. -/
structure Linked (components : Components) (own : Nat → Origin) (root : Items)
    (r : Registry) : Prop extends Registered components own root r where
  keys : KeysApart components
  tops : ∀ {name}, Entries.contains components name = true → r.Finished name

/-- What holds of a compiled schema with plain names. -/
structure Compiled (components : Components) (own : Nat → Origin) (root : Items)
    (r : Registry) : Prop extends Linked components own root r where
  plain : PlainNames components

/-- The root map names the target of each top-level reference, so the chains of
references of a schema that links end. -/
theorem Registered.acyclic {own : Nat → Origin} {root : Items} {r : Registry}
    (h : Registered components own root r) (hn : KeysApart components)
    (hroot : (Descriptor.map root).ClosedIn r) (name : String) :
    ¬ TransGen (RefersTo components) name name := by
  intro hcycle
  obtain ⟨target, href, hback⟩ := TransGen.head'_iff.mp hcycle
  obtain ⟨d, hd, hf⟩ := href
  -- the item of `name` in the root map has the target for its type
  have hitem : item [] (name, d) ∈ root := by
    rw [h.items]
    exact List.mem_map_of_mem (Entries.mem_of_get? hd)
  have hkey : (item [] (name, d)).typeName = target := typeKey_of_form hf
  obtain ⟨object, ho, hi⟩ := hroot.references _ (List.mem_map_of_mem hitem)
  rw [hkey] at ho
  exact (h.faithful.owned ho hi).stands.acyclic hn hback hcycle

theorem compile_compiled {definition : Tree} {schema : Schema}
    (hn : PlainNames definition.entries) (h : compile definition = .ok schema) :
    ∃ own, Compiled definition.entries own schema.root schema.registry := by
  obtain ⟨components, rfl, -, trace, hy, hroot, -⟩ := compile_ok_iff.mp h
  obtain ⟨own, hreg⟩ := yields_registered hy
  exact ⟨own, ⟨hreg, hn.keys, yields_tops (hreg.acyclic hn.keys hroot) hy⟩, hn⟩

namespace Linked

variable {own : Nat → Origin} {root : Items} {r : Registry}

theorem place_unique (h : Linked components own root r) {path : List String} {name : String}
    {d d' : Tree} (ho : Occurs components path name d) (ho' : Occurs components path name d') :
    d = d' :=
  (h.placed h.keys ho).unique ho'

/-- A name is bound to an object whose origin is what the name stands for. -/
theorem lookup (h : Linked components own root r) {name : String} {origin : Origin}
    (hr : Resolves components name origin) :
    ∃ object, r.get? name = some object ∧ own object.id = origin ∧
      Described components origin object.descriptor := by
  have hbound : r.contains name = true := by
    cases hr with
    | kind kind => exact h.faithful.grounded.contains_kind kind
    | component ho hc =>
      obtain ⟨object, hg, -⟩ := (h.placed h.keys ho).bound hc
      exact Registry.contains_of_get? hg
    | primitiveAlias hd _ => exact (h.tops (Entries.contains_of_get? hd)).contains
    | reference hd _ _ => exact (h.tops (Entries.contains_of_get? hd)).contains
  obtain ⟨object, ho, hi⟩ := h.finished hbound
  have hb := h.faithful.owned ho hi
  have hown := hb.stands.unique h.keys h.place_unique hr
  have hdesc := hb.described
  rw [hown] at hdesc
  exact ⟨object, ho, hown, hdesc⟩

theorem resolve_eq (h : Linked components own root r) {name : String} {origin : Origin}
    (hr : Resolves components name origin) : r.resolve name = origin.descriptor := by
  obtain ⟨object, ho, -, hdesc⟩ := h.lookup hr
  rw [Registry.resolve_of_get? ho, hdesc.descriptor_eq]

/-- The registry binds the names that stand for something, each to the descriptor of what
it stands for. -/
theorem get?_descriptor_iff (h : Linked components own root r) {name : String}
    {descriptor : Descriptor} :
    (r.get? name).map DescriptorObject.descriptor = some descriptor ↔
      ∃ origin, Resolves components name origin ∧ origin.descriptor = descriptor := by
  constructor
  · intro hx
    obtain ⟨object, ho, rfl⟩ := Option.map_eq_some_iff.mp hx
    have hb := h.faithful.owned ho (h.descriptor_ne ho)
    exact ⟨_, hb.stands, hb.described.descriptor_eq.symm⟩
  · intro hx
    obtain ⟨origin, hr, rfl⟩ := hx
    obtain ⟨object, ho, -, hdesc⟩ := h.lookup hr
    exact Option.map_eq_some_iff.mpr ⟨object, ho, hdesc.descriptor_eq⟩

/-- Every top-level name stands for something. -/
theorem top_resolves (h : Linked components own root r) {name : String}
    (ht : Entries.contains components name = true) :
    ∃ origin, Resolves components name origin := by
  obtain ⟨object, ho, hi⟩ := h.tops ht
  exact ⟨_, (h.faithful.owned ho hi).stands⟩

end Linked

/-- A list allows kinds and top-level components only: a nested component has a dot
in its name. -/
theorem Compiled.listBody {own : Nat → Origin} {root : Items} {r : Registry}
    (h : Compiled components own root r) {path : List String} {name : String} {d : Tree}
    (ho : Occurs components path name d) (hf : form? d = some .list) :
    ListBody (IsItemType components) d := by
  refine (h.listBody_nameable h.keys ho hf).mono fun type ht hk => ?_
  rcases hk with hk | hk
  · exact .inl hk
  · cases hk with
    | top hd => exact .inr (Entries.contains_of_get? hd)
    | nested _ hp _ => exact absurd (dot_mem_dottedName hp) (h.plain.itemTypes ho hf _ ht)

end ComponentSchema
