import ComponentSchema.Proofs.Compiled

/-!
# Shadowed components

A top-level component with the name of a kind is never registered: its name is bound to
the kind from the start, and only the attributes that every component has are read. The
registry of a definition is therefore described by the other components alone.
-/

namespace ComponentSchema

open Registration Definition

variable {components : Components}

/-- The components that do not have the name of a kind. -/
def unshadowed (components : Components) : Components :=
  components.filter fun component => (PrimitiveKind.ofName? component.1).isNone

theorem get?_unshadowed {name : String} {d : Tree} :
    Entries.get? (unshadowed components) name = some d ↔
      Entries.get? components name = some d ∧ ∀ kind : PrimitiveKind, name ≠ kind.name := by
  rw [unshadowed, Entries.get?_filter fun name => (PrimitiveKind.ofName? name).isNone,
    ← PrimitiveKind.ofName?_isNone_iff]
  by_cases hn : (PrimitiveKind.ofName? name).isNone = true
  · simp [hn]
  · simp [hn]

theorem contains_unshadowed {name : String} :
    Entries.contains (unshadowed components) name = true ↔
      Entries.contains components name = true ∧ ∀ kind : PrimitiveKind, name ≠ kind.name := by
  simp only [Entries.contains_iff_get?, get?_unshadowed, exists_and_right]

theorem unshadowed_isItemType {name : String} (h : Entries.contains components name = true) :
    IsItemType (unshadowed components) name := by
  by_cases hk : ∃ kind : PrimitiveKind, name = kind.name
  · exact .inl hk
  · exact .inr (contains_unshadowed.mpr ⟨h, not_exists.mp hk⟩)

/-- An unbound name is not that of a kind. -/
theorem ne_kind_of_unbound {r : Registry} (hg : r.Grounded) {name : String}
    (h : r.contains name = false) (kind : PrimitiveKind) : name ≠ kind.name := by
  intro hk
  rw [hk, hg.contains_kind kind] at h
  cases h

theorem Definition.Occurs.of_unshadowed {path : List String} {name : String} {d : Tree}
    (h : Occurs (unshadowed components) path name d) : Occurs components path name d := by
  induction h with
  | top hd => exact .top (get?_unshadowed.mp hd).1
  | member _ hf hm ih => exact .member ih hf hm

/-- What tells the keys of all components apart tells those of the unshadowed ones apart,
and none of these has the name of a kind. -/
theorem keysApart_unshadowed (hp : PlacesApart components) (ha : AliasesApart components) :
    KeysApart (unshadowed components) where
  places ho hc ho' := hp ho.of_unshadowed hc ho'.of_unshadowed
  aliases ho hc hd := ha ho.of_unshadowed hc (get?_unshadowed.mp hd).1
  kinds kind := by
    rw [Option.eq_none_iff_forall_ne_some]
    intro d hd
    exact (get?_unshadowed.mp hd).2 kind rfl

theorem keysApart_unshadowed_of_dotFree
    (h : ∀ {path name d}, Occurs components path name d → '.' ∉ name.toList) :
    KeysApart (unshadowed components) :=
  keysApart_unshadowed (placesApart_of_dotFree h) (aliasesApart_of_dotFree h)

/-! ## Registering without the shadowed components -/

section

variable {enter : String → Session Unit} {path : List String} {name : String} {d : Tree}
  {p q : Progress}

/-- Item types that are not bound are not names of kinds. -/
theorem itemTypes_unshadowed (hc : ∀ target, Conservative (enter target)) {entries : List Tree}
    {names : List String} (hp : p.registry.Grounded)
    (h : Yields (itemTypes components enter path entries) p names q) :
    Yields (itemTypes (unshadowed components) enter path entries) p names q := by
  induction entries generalizing p names with
  | nil => exact h
  | cons entry rest ih =>
    obtain ⟨name, tail, m, rfl, rfl, hname, hrest⟩ := yields_itemTypes_cons.mp h
    rcases hname with ⟨hb, rfl⟩ | ⟨hb, hk, hy⟩
    · exact yields_itemTypes_cons.mpr ⟨name, tail, p, rfl, rfl, .inl ⟨hb, rfl⟩, ih hp hrest⟩
    · -- only an unbound name is looked up, and the kinds are always bound
      have hk' := contains_unshadowed.mpr ⟨hk, ne_kind_of_unbound hp hb⟩
      have hm := ((hc name).yields hp hy).1
      exact yields_itemTypes_cons.mpr
        ⟨name, tail, m, rfl, rfl, .inr ⟨hb, hk', hy⟩, ih hm hrest⟩

theorem listBody_unshadowed (hc : ∀ target, Conservative (enter target))
    {fields : List (String × Tree)} {descriptor : Descriptor} (hp : p.registry.Grounded)
    (h : Yields (listBody components enter path fields) p descriptor q) :
    Yields (listBody (unshadowed components) enter path fields) p descriptor q := by
  obtain ⟨names, hn, hrest⟩ := yields_listBody.mp h
  obtain ⟨entries, he, hne, hy⟩ := yields_itemTypesOf.mp hn
  exact yields_listBody.mpr ⟨names,
    yields_itemTypesOf.mpr ⟨entries, he, hne, itemTypes_unshadowed hc hp hy⟩, hrest⟩

theorem addItems_unshadowed (hc : ∀ target, Conservative (enter target))
    {declared items : Items} {group : List (String × Tree)}
    (hr : ∀ m ∈ group, ∀ {p q key required}, p.registry.Grounded →
      Yields (register components enter path m.1 m.2) p (key, required) q →
      Yields (register (unshadowed components) enter path m.1 m.2) p (key, required) q)
    (hp : p.registry.Grounded)
    (h : Yields (addItems components enter path declared group) p items q) :
    Yields (addItems (unshadowed components) enter path declared group) p items q := by
  induction group generalizing declared p with
  | nil => exact h
  | cons component rest ih =>
    obtain ⟨name, d⟩ := component
    obtain ⟨hnew, typeName, required, m, hy, hrest⟩ := yields_addItems_cons.mp h
    have hreg : Conservative (register components enter path name d) := .register hc path name d
    have hm := (hreg.yields hp hy).1
    exact yields_addItems_cons.mpr ⟨hnew, typeName, required, m,
      hr (name, d) List.mem_cons_self hp hy,
      ih (fun m hin => hr m (List.mem_cons_of_mem _ hin)) hm hrest⟩

/-- A component is registered in the same way without the shadowed components: nothing
in it refers to one of them. The induction is over the nesting of components. -/
theorem register_unshadowed (hc : ∀ target, Conservative (enter target)) {key : String}
    {required : Bool} (hp : p.registry.Grounded)
    (h : Yields (register components enter path name d) p (key, required) q) :
    Yields (register (unshadowed components) enter path name d) p (key, required) q := by
  induction d using nesting_induction generalizing path name p q key required with
  | step d ih =>
    obtain ⟨fields, form, rfl, hf, hh, hkey, hreq, he⟩ := yields_register.mp h
    refine yields_register.mpr ⟨fields, form, rfl, hf,
      hh.mono fun _ => unshadowed_isItemType, hkey, hreq, ?_⟩
    -- `effect` reads the components only for the bodies of maps and lists
    cases form with
    | primitive kind => exact he
    | reference target => exact he
    | list =>
      rcases yields_define.mp he with ⟨hb, rfl⟩ | ⟨hb, descriptor, m, hy, rfl⟩
      · exact yields_define.mpr (.inl ⟨hb, rfl⟩)
      · have hg := hp.reserve (Registry.not_contains_iff.mp hb)
        exact yields_define.mpr (.inr ⟨hb, descriptor, m, listBody_unshadowed hc hg hy, rfl⟩)
    | map =>
      rcases yields_define.mp he with ⟨hb, rfl⟩ | ⟨hb, descriptor, m, hy, rfl⟩
      · exact yields_define.mpr (.inl ⟨hb, rfl⟩)
      · have hg := hp.reserve (Registry.not_contains_iff.mp hb)
        obtain ⟨items, n, hbody, hd⟩ := yields_bind.mp hy
        obtain ⟨hgroups, hitems⟩ := yields_mapBody.mp hbody
        have hitems' := addItems_unshadowed hc (fun m hin p q _ _ => ih m hin) hg hitems
        exact yields_define.mpr (.inr ⟨hb, descriptor, m, yields_bind.mpr
          ⟨items, n, yields_mapBody.mpr ⟨hgroups, hitems'⟩, hd⟩, rfl⟩)

/-- A shadowed component is visited, and nothing is registered for it. -/
theorem register_shadowed (hp : p.registry.Grounded) (kind : PrimitiveKind) {key : String}
    {required : Bool} (h : Yields (register components enter [] kind.name d) p (key, required) q) :
    p = q ∧ Visited components p.registry [] kind.name d := by
  have hb := hp.contains_kind kind
  obtain ⟨fields, form, rfl, hf, hh, -, -, he⟩ := yields_register.mp h
  refine ⟨?_, hh, fun _ => hb⟩
  cases form with
  | primitive other =>
    rcases yields_aliasPrimitive.mp he with ⟨-, hq⟩ | ⟨-, -, hq⟩ | ⟨hn, -⟩
    · exact hq
    · exact hq
    · rw [hb] at hn
      cases hn
  | reference target =>
    rcases yields_aliasTarget.mp he with ⟨-, hq⟩ | ⟨hn, -⟩
    · exact hq
    · rw [hb] at hn
      cases hn
  | map =>
    rcases yields_define.mp he with ⟨-, hq⟩ | ⟨hn, -⟩
    · exact hq
    · rw [dottedName_top, hb] at hn
      cases hn
  | list =>
    rcases yields_define.mp he with ⟨-, hq⟩ | ⟨hn, -⟩
    · exact hq
    · rw [dottedName_top, hb] at hn
      cases hn

end

/-- Following references makes moves of the unshadowed components only. -/
theorem enterWithin_moves_unshadowed (budget : Nat) {target : String} {p q : Progress}
    (hp : p.registry.Grounded)
    (h : Yields (enterWithin components (fun _ => pure ()) budget target) p () q) :
    Moves (unshadowed components) p q := by
  induction budget generalizing target p q with
  | zero => exact pure_moves h
  | succ budget ih =>
    have hc : ∀ target, Conservative (enterWithin components (fun _ => pure ()) budget target) :=
      .enterWithin (fun _ => .pure ()) budget
    rcases yields_enterWithin_succ.mp h with ⟨-, rfl⟩ | ⟨hn, d, key, required, hd, hy⟩
    · exact .refl
    · have hd' := get?_unshadowed.mpr ⟨hd, ne_kind_of_unbound hp hn⟩
      exact (register_moves hc ih (.top hd') hp (register_unshadowed hc hp hy)).1

/-- When all components are registered, what holds of the registry is told by the
unshadowed ones. -/
theorem registered_unshadowed {root : Items} {p : Progress}
    (h : Yields (registerAll components) Progress.start root p) :
    ∃ own, Registered (unshadowed components) own ((unshadowed components).map (item []))
      p.registry := by
  have hdistinct : (Entries.names components).Nodup := yields_addItems_nodup (by simp) h
  have hc := Conservative.enter_top components
  have hy := addItems_unshadowed hc
    (fun m _ p q key required hp => register_unshadowed hc hp) .primitives h
  -- a shadowed component makes no move, so all moves are those of the others
  obtain ⟨hmoves, -, hvisited⟩ := addItems_moves hc (fun m hm p q key required hp hm' => by
    by_cases hk : ∃ kind : PrimitiveKind, m.1 = kind.name
    · obtain ⟨kind, hk⟩ := hk
      rw [hk] at hm' ⊢
      obtain ⟨rfl, hv⟩ := register_shadowed hp kind hm'
      exact ⟨.refl, hv⟩
    · have hd := get?_unshadowed.mpr ⟨Entries.get?_of_mem hdistinct hm, not_exists.mp hk⟩
      exact register_moves hc (enterWithin_moves_unshadowed _) (.top hd) hp hm') .primitives hy
  obtain ⟨own, hf⟩ := Faithful.of_moves hmoves
  refine ⟨own, hf, ?_, rfl, ?_, registerAll_not_placeholder h⟩
  · exact hdistinct.sublist (List.filter_sublist.map _)
  · intro name d hd
    exact hvisited (name, d) (Entries.mem_of_get? (get?_unshadowed.mp hd).1)

end ComponentSchema
