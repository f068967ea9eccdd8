import ComponentSchema.Proofs.Compiled
import Mathlib.Data.Fintype.Pigeonhole
import Mathlib.Order.WellFounded

/-!
# Unresolved references

Once the components of a definition are registered, linking refuses the definition
only for a chain of references between top-level components that never ends, and it
names the first such chain. Everything else that a descriptor refers to is bound when
the descriptor is built and stays bound.
-/

namespace ComponentSchema

open Registration Definition Linking Validation Relation

variable {components : Components}

/-! ## Endless chains -/

/-- The chain of references that starts at the top-level name never ends. -/
def Definition.Endless (components : Components) (name : String) : Prop :=
  ∃ chain : Nat → String, chain 0 = name ∧ ∀ n, RefersTo components (chain n) (chain (n + 1))

theorem endless_iff_not_acc {name : String} :
    Endless components name ↔ ¬ Acc (fun target name => RefersTo components name target) name := by
  rw [Endless, not_acc_iff_exists_descending_chain]

/-- A chain never ends exactly when what follows its first reference never ends. -/
theorem Definition.RefersTo.endless_iff {name target : String}
    (h : RefersTo components name target) :
    Endless components name ↔ Endless components target := by
  rw [endless_iff_not_acc, endless_iff_not_acc, not_iff_not]
  constructor
  · intro ha
    exact ha.inv h
  · intro ha
    refine .intro _ fun other ho => ?_
    rwa [← h.unique ho]

theorem not_endless_of_end {name : String} (h : ∀ target, ¬ RefersTo components name target) :
    ¬ Endless components name := by
  intro hx
  obtain ⟨chain, rfl, hc⟩ := hx
  exact h _ (hc 0)

/-- A chain that ends comes to no cycle. -/
theorem acyclic_of_not_endless {name other : String} (h : ¬ Endless components name)
    (hr : ReflTransGen (RefersTo components) name other) :
    ¬ TransGen (RefersTo components) other other := by
  have hother : ¬ Endless components other := by
    induction hr with
    | refl => exact h
    | tail _ hstep ih => rwa [← RefersTo.endless_iff hstep]
  intro hcycle
  rw [endless_iff_not_acc, not_not] at hother
  -- going round the cycle for ever would be a descent
  exact not_acc_iff_exists_descending_chain.mpr
    ⟨fun _ => other, rfl, fun _ => transGen_swap.mpr hcycle⟩ hother.transGen

/-- There are finitely many components, so a chain that never ends comes to a cycle. -/
theorem not_endless_of_acyclic (h : ∀ name, ¬ TransGen (RefersTo components) name name)
    {name : String} : ¬ Endless components name := by
  intro hx
  obtain ⟨chain, -, hc⟩ := hx
  have hmem : ∀ n, chain n ∈ Entries.names components := by
    intro n
    obtain ⟨d, hd, -⟩ := hc n
    exact Entries.mem_names_iff_get?.mpr ⟨d, hd⟩
  obtain ⟨i, j, hij, heq⟩ := Finite.exists_ne_map_eq_of_infinite
    fun n => (⟨chain n, hmem n⟩ : {name // name ∈ Entries.names components})
  have hpath := Nat.rel_of_forall_rel_succ_of_lt (TransGen (RefersTo components))
    fun n => .single (hc n)
  have hne : ∀ {i j}, i < j → chain i ≠ chain j := by
    intro i j hlt heq
    have hcycle := hpath hlt
    rw [heq] at hcycle
    exact h _ hcycle
  have hrepeat : chain i = chain j := congrArg Subtype.val heq
  rcases Nat.lt_or_gt_of_ne hij with hlt | hlt
  · exact hne hlt hrepeat
  · exact hne hlt hrepeat.symm

theorem form?_reference_ne_kind {d : Tree} {target : String}
    (h : form? d = some (.reference target)) (kind : PrimitiveKind) : target ≠ kind.name := by
  intro hk
  obtain ⟨name, -, hf⟩ := form?_eq_some_iff.mp h
  rw [Form.ofName_eq_reference hf, hk, Form.ofName_kind] at hf
  cases hf

theorem Definition.Composite.not_refersTo {name target : String} {d : Tree} (h : Composite d)
    (hd : Entries.get? components name = some d) : ¬ RefersTo components name target := by
  intro hx
  obtain ⟨d', hd', hf⟩ := hx
  rw [hd] at hd'
  cases hd'
  exact h.not_reference hf

/-- A name other than a kind that stands for something is at the start of a chain that
ends, if the top-level names have no dots: a nested component is no part of a chain. -/
theorem Definition.Resolves.not_endless
    (hdots : ∀ name ∈ Entries.names components, '.' ∉ name.toList)
    {name : String} {origin : Origin} (h : Resolves components name origin)
    (hk : ∀ kind : PrimitiveKind, name ≠ kind.name) : ¬ Endless components name := by
  induction h with
  | kind kind => exact absurd rfl (hk kind)
  | @component path name d ho hc =>
    refine not_endless_of_end fun target hr => ?_
    obtain ⟨d', hd', -⟩ := id hr
    by_cases hp : path = []
    · subst hp
      exact hc.not_refersTo (Occurs.top_iff.mp ho) hr
    · exact hdots _ (Entries.mem_names_iff_get?.mpr ⟨d', hd'⟩) (dot_mem_dottedName hp)
  | primitiveAlias hd hf => exact not_endless_of_end fun _ => not_refersTo_of_primitive hd hf
  | reference hd hf _ ih =>
    rw [RefersTo.endless_iff ⟨_, hd, hf⟩]
    exact ih (form?_reference_ne_kind hf)

/-! ## What descriptors refer to -/

/-- Every type name in a descriptor that is bound is itself bound, or it is a top-level
name. -/
def Registry.Anchored (components : Components) (r : Registry) : Prop :=
  ∀ {name object}, r.get? name = some object → ∀ type ∈ references object.descriptor,
    Known components r type

theorem Visited.known {r : Registry} (hg : r.Grounded) {path : List String} {name : String}
    {d : Tree} (h : Visited components r path name d) :
    Known components r (typeKey path name d) := by
  obtain ⟨form, hf⟩ := h.headed.form
  cases form with
  | primitive kind =>
    rw [typeKey_of_form hf]
    exact .inl (hg.contains_kind kind)
  | map =>
    rw [typeKey_of_form hf]
    exact .inl (h.bound (.inl hf))
  | list =>
    rw [typeKey_of_form hf]
    exact .inl (h.bound (.inr hf))
  | reference target =>
    rw [typeKey_of_form hf]
    exact .inr (h.headed.target hf)

theorem Built.known {r : Registry} (hg : r.Grounded) {path : List String} {name : String}
    {d : Tree} {descriptor : Descriptor} (h : Built components r path name d descriptor) :
    ∀ type ∈ references descriptor, Known components r type := by
  cases h with
  | map _ _ hv =>
    intro type hm
    obtain ⟨declared, hin, rfl⟩ := List.mem_map.mp hm
    obtain ⟨m, hmem, rfl⟩ := List.mem_map.mp hin
    exact (hv m hmem).known hg
  | list _ hbody =>
    rw [ListType.of_eq]
    intro type hm
    exact hbody.known (List.mem_eraseDups.mp hm)

section

variable {r s : Registry} {name : String}

theorem Known.update (hs : ∀ other, other ≠ name → s.get? other = r.get? other)
    (hname : Known components s name) {type : String} (h : Known components r type) :
    Known components s type := by
  by_cases hne : type = name
  · rwa [hne]
  · refine h.imp_left fun hc => ?_
    obtain ⟨object, ho⟩ := Registry.contains_iff.mp hc
    exact Registry.contains_of_get? (by rw [hs type hne, ho])

/-- One name changes, which stays known, and what is new under it refers to names that
were known. -/
theorem Registry.Anchored.update (h : r.Anchored components)
    (hs : ∀ other, other ≠ name → s.get? other = r.get? other)
    (hname : Known components s name)
    (hnew : ∀ object, s.get? name = some object → ∀ type ∈ references object.descriptor,
      Known components r type) : s.Anchored components := by
  intro other object ho type ht
  refine Known.update hs hname ?_
  by_cases hne : other = name
  · rw [hne] at ho
    exact hnew object ho type ht
  · rw [hs other hne] at ho
    exact h ho type ht

theorem Registry.Anchored.share {target : String} {object : DescriptorObject}
    (h : r.Anchored components) (ho : r.get? target = some object) :
    (r.share name object).Anchored components := by
  refine h.update (fun other hne => r.get?_share_ne object hne)
    (.inl (Registry.contains_of_get? (r.get?_share_self name object))) ?_
  intro found hf
  rw [Registry.get?_share_self] at hf
  cases hf
  exact h ho

end

/-- Every move keeps a grounded registry anchored. A name that is given up is a
top-level one, so it stays known. -/
theorem Registry.Anchored.step {p q : Progress} (hg : p.registry.Grounded)
    (h : p.registry.Anchored components) (hm : Move components p q) :
    q.registry.Anchored components := by
  cases hm with
  | @reserve name _ _ =>
    refine h.update (fun other hne => p.registry.get?_reserve_ne hne)
      (.inl (Registry.contains_of_get? (p.registry.get?_reserve_self name))) ?_
    intro object ho
    rw [Registry.get?_reserve_self] at ho
    cases ho
    simp [references]
  | release hd _ hp =>
    refine h.update (fun other hne => Registry.get?_release_ne hne)
      (.inr (Entries.contains_of_get? hd)) ?_
    intro object ho
    rw [Registry.get?_release_self hg.distinct hp] at ho
    cases ho
  | @finish path name d descriptor _ _ hb =>
    refine h.update (fun other hne => p.registry.get?_bind_ne descriptor hne)
      (.inl (Registry.contains_of_get? (p.registry.get?_bind_self _ descriptor))) ?_
    intro object ho
    rw [Registry.get?_bind_self] at ho
    cases ho
    exact hb.known hg
  | aliasPrimitive _ _ _ ho => exact h.share ho
  | aliasTarget _ _ _ ho _ => exact h.share ho

/-- Whatever is registered from the start, the registry is anchored. -/
theorem Registry.Anchored.of_moves {p : Progress} (h : Moves components Progress.start p) :
    p.registry.Anchored components := by
  refine (h.preserve (P := fun p =>
    (∃ own, Faithful components own p.registry) ∧ p.registry.Anchored components)
    ?_ ⟨⟨_, .start components⟩, ?_⟩).2
  · intro p q hm hp
    obtain ⟨⟨own, hf⟩, ha⟩ := hp
    exact ⟨hf.step hm, ha.step hf.grounded hm⟩
  · intro name object ho
    obtain ⟨kind, -, rfl⟩ := Registry.get?_primitives ho
    simp [references]

/-! ## Linking what is registered -/

section

variable {root : Items} {p : Progress}

theorem finished_of_known (h : Yields (registerAll components) Progress.start root p)
    (htops : ∀ {name}, Entries.contains components name = true → p.registry.Finished name)
    {type : String} (hk : Known components p.registry type) : p.registry.Finished type := by
  rcases hk with hc | ht
  · exact (Registry.finished_or_placeholder hc).resolve_right (registerAll_not_placeholder h)
  · exact htops ht

/-- If every top-level name is finished, so is everything that is referred to. -/
theorem closed_of_tops (h : Yields (registerAll components) Progress.start root p)
    (htops : ∀ {name}, Entries.contains components name = true → p.registry.Finished name) :
    p.registry.Closed := by
  intro name object ho
  refine ⟨?_, fun type ht => ?_⟩
  · intro hi
    exact registerAll_not_placeholder h ⟨object, ho, hi⟩
  · exact finished_of_known h htops (Registry.Anchored.of_moves (registerAll_moves h).1 ho type ht)

theorem top_finished_of_not_endless
    (h : Yields (registerAll components) Progress.start root p) {name : String}
    (ht : Entries.contains components name = true) (he : ¬ Endless components name) :
    p.registry.Finished name :=
  yields_top h ht fun _ => acyclic_of_not_endless he

variable (hdots : ∀ name ∈ Entries.names components, '.' ∉ name.toList)

include hdots

/-- The type of a top-level component is finished exactly when the chain of references
that starts at the component ends. -/
theorem typeKey_finished_iff (h : Yields (registerAll components) Progress.start root p)
    {name : String} {d : Tree} (hd : Entries.get? components name = some d) :
    p.registry.Finished (typeKey [] name d) ↔ ¬ Endless components name := by
  obtain ⟨own, hreg⟩ := yields_registered h
  have hv := hreg.visited hd
  obtain ⟨form, hf⟩ := hv.headed.form
  have hcomposite : Composite d →
      (p.registry.Finished (typeKey [] name d) ↔ ¬ Endless components name) := by
    intro hc
    rw [typeKey_composite hc]
    exact iff_of_true (hreg.finished (hv.bound hc)) (not_endless_of_end fun _ => hc.not_refersTo hd)
  cases form with
  | primitive kind =>
    rw [typeKey_of_form hf]
    exact iff_of_true (hreg.finished (hreg.faithful.grounded.contains_kind kind))
      (not_endless_of_end fun _ => not_refersTo_of_primitive hd hf)
  | map => exact hcomposite (.inl hf)
  | list => exact hcomposite (.inr hf)
  | reference target =>
    rw [typeKey_of_form hf, RefersTo.endless_iff ⟨d, hd, hf⟩]
    constructor
    · intro hx
      obtain ⟨object, ho, hi⟩ := hx
      exact (hreg.faithful.owned ho hi).stands.not_endless hdots (form?_reference_ne_kind hf)
    · exact top_finished_of_not_endless h (hv.headed.target hf)

/-- The check of the root map looks at the chains of all top-level components. -/
theorem root_closed_iff (h : Yields (registerAll components) Progress.start root p) :
    (Descriptor.map root).ClosedIn p.registry ↔
      ∀ name ∈ Entries.names components, ¬ Endless components name := by
  obtain ⟨own, hreg⟩ := yields_registered h
  have hget := fun m (hm : m ∈ components) => Entries.get?_of_mem hreg.distinct hm
  have hrefs : references (.map root) = components.map fun m => typeKey [] m.1 m.2 := by
    rw [hreg.items]
    exact List.map_map
  constructor
  · intro hroot name hm
    obtain ⟨d, hin⟩ := Entries.mem_names.mp hm
    refine (typeKey_finished_iff hdots h (hget _ hin)).mp (hroot.references _ ?_)
    rw [hrefs]
    exact List.mem_map_of_mem hin
  · intro hends
    refine ⟨by simp, fun type ht => ?_⟩
    rw [hrefs] at ht
    obtain ⟨m, hin, rfl⟩ := List.mem_map.mp ht
    exact (typeKey_finished_iff hdots h (hget m hin)).mpr
      (hends m.1 (Entries.mem_names.mpr ⟨m.2, hin⟩))

theorem closed_of_root_closed (h : Yields (registerAll components) Progress.start root p)
    (hroot : (Descriptor.map root).ClosedIn p.registry) : p.registry.Closed := by
  have hends := (root_closed_iff hdots h).mp hroot
  have htops : ∀ {name}, Entries.contains components name = true → p.registry.Finished name := by
    intro name ht
    exact top_finished_of_not_endless h ht (hends name (Entries.contains_iff_mem.mp ht))
  intro name object ho
  exact closed_of_tops h htops ho

end

/-! ## The first endless chain -/

/-- A sequence of checks fails at the first element that fails. -/
theorem forM_error {α ε : Type} {f : α → Except ε Unit} {l : List α} {e : ε}
    (h : l.forM f = .error e) : ∃ before a after, l = before ++ a :: after ∧
      (∀ b ∈ before, f b = .ok ()) ∧ f a = .error e := by
  induction l with
  | nil => cases h
  | cons a rest ih =>
    have hcons : (a :: rest).forM f = f a >>= fun _ => rest.forM f := rfl
    rw [hcons, seq_error_iff] at h
    rcases h with h | ⟨ha, h⟩
    · exact ⟨[], a, rest, rfl, by simp, h⟩
    · obtain ⟨before, b, after, rfl, hb, he⟩ := ih h
      exact ⟨a :: before, b, after, rfl, List.forall_mem_cons.mpr ⟨ha, hb⟩, he⟩

theorem checkReference_error {r : Registry} {owner name : String} {e : SchemaError}
    (h : checkReference r owner name = .error e) :
    ¬ r.Finished name ∧ e = ⟨owner, .unresolvedType name⟩ := by
  rw [← Registry.isResolved_iff]
  rw [checkReference] at h
  split at h
  next => cases h
  next hn =>
    cases h
    exact ⟨hn, rfl⟩

/-- An error of linking is that of the first top-level component whose chain of
references never ends, and names the type that the component gives. -/
theorem link_error {root : Items} {p : Progress}
    (hdots : ∀ name ∈ Entries.names components, '.' ∉ name.toList)
    (h : Yields (registerAll components) Progress.start root p) {e : SchemaError}
    (he : link root p.registry = .error e) :
    ∃ before name d after type, components = before ++ (name, d) :: after ∧
      (∀ m ∈ before, ¬ Endless components m.1) ∧ Endless components name ∧
      d.get? "type" = some (.string type) ∧ e = ⟨"", .unresolvedType type⟩ := by
  obtain ⟨own, hreg⟩ := yields_registered h
  have hget := fun m (hm : m ∈ components) => Entries.get?_of_mem hreg.distinct hm
  rcases seq_error_iff.mp he with hroot | ⟨hroot, -⟩
  · -- the check of the root map goes through the components in order
    have hitems : references (.map root) = components.map fun m => typeKey [] m.1 m.2 := by
      rw [hreg.items]
      exact List.map_map
    have hfirst : (references (.map root)).forM (checkReference p.registry "") = .error e := hroot
    obtain ⟨_, key, _, hsplit, hbefore, hkey⟩ := forM_error hfirst
    obtain ⟨before, _, hcomponents, rfl, htail⟩ :=
      List.map_eq_append_iff.mp (hitems.symm.trans hsplit)
    obtain ⟨⟨name, d⟩, after, rfl, rfl, -⟩ := List.map_eq_cons_iff.mp htail
    have hd : Entries.get? components name = some d := hget (name, d) (by simp [hcomponents])
    obtain ⟨hn, rfl⟩ := checkReference_error hkey
    have hendless : Endless components name := by
      rwa [typeKey_finished_iff hdots h hd, not_not] at hn
    obtain ⟨chain, rfl, hchain⟩ := id hendless
    obtain ⟨d', hd', hf⟩ := hchain 0
    rw [hd] at hd'
    cases hd'
    obtain ⟨type, htype, hform⟩ := form?_eq_some_iff.mp hf
    refine ⟨before, _, d, after, type, hcomponents, ?_, hendless, htype, ?_⟩
    · intro m hm
      refine (typeKey_finished_iff hdots h (hget m (by simp [hcomponents, hm]))).mp ?_
      exact checkReference_ok_iff.mp (hbefore _ (List.mem_map_of_mem hm))
    · rw [typeKey_of_form hf, Form.key, Form.ofName_eq_reference hform]
  · -- what is registered links as soon as the root map does
    have hc := checkType_ok_iff.mp hroot
    rw [link_ok_iff.mpr ⟨hc, closed_of_root_closed hdots h hc⟩] at he
    cases he

/-- A definition with dot-free top-level names compiles exactly when its components can
be registered and every chain of references between them ends. -/
theorem compiles_iff_registers (hdots : ∀ name ∈ Entries.names components, '.' ∉ name.toList) :
    (∃ schema, compile (.map components) = .ok schema) ↔ components ≠ [] ∧
      (∃ root p, Yields (registerAll components) Progress.start root p) ∧
      ∀ name ∈ Entries.names components, ¬ Endless components name := by
  constructor
  · intro hx
    obtain ⟨schema, hs⟩ := hx
    obtain ⟨_, ⟨rfl⟩, hne, trace, hy, hroot, -⟩ := compile_ok_iff.mp hs
    exact ⟨hne, ⟨_, _, hy⟩, (root_closed_iff hdots hy).mp hroot⟩
  · intro hx
    obtain ⟨hne, ⟨root, p, hy⟩, hends⟩ := hx
    have hroot := (root_closed_iff hdots hy).mpr hends
    exact ⟨⟨root, p.registry⟩, compile_ok_iff.mpr
      ⟨components, rfl, hne, p.trace, hy, hroot, closed_of_root_closed hdots hy hroot⟩⟩

/-- If the components of a definition with dot-free top-level names can be registered,
it is refused exactly for a chain of references between them that never ends, and the
error names the type of the first component with such a chain. Once the root map is
checked, no registered type is refused. -/
theorem refused_iff_endless {root : Items} {p : Progress} (hne : components ≠ [])
    (hdots : ∀ name ∈ Entries.names components, '.' ∉ name.toList)
    (h : Yields (registerAll components) Progress.start root p) :
    ((∃ e, compile (.map components) = .error e) ↔
      ∃ name ∈ Entries.names components, Endless components name) ∧
    (∀ e, compile (.map components) = .error e → ∃ before name d after type,
      components = before ++ (name, d) :: after ∧ (∀ m ∈ before, ¬ Endless components m.1) ∧
      Endless components name ∧ d.get? "type" = some (.string type) ∧
      e = ⟨"", .unresolvedType type⟩) ∧
    (checkType p.registry "" (.map root) = .ok () →
      p.registry.typeNames.forM
        (fun name => checkType p.registry name (p.registry.resolve name)) = .ok ()) := by
  have herror : ∀ {e}, compile (.map components) = .error e → link root p.registry = .error e := by
    intro e he
    rw [compile_of_yields hne h, seq_error_iff] at he
    exact he.resolve_right fun hx => nomatch hx.2
  refine ⟨⟨?_, ?_⟩, ?_, ?_⟩
  · intro hx
    obtain ⟨e, he⟩ := hx
    obtain ⟨before, name, d, after, -, hsplit, -, hendless, -⟩ := link_error hdots h (herror he)
    exact ⟨name, Entries.mem_names.mpr ⟨d, by simp [hsplit]⟩, hendless⟩
  · intro hx
    obtain ⟨name, hm, hendless⟩ := hx
    cases hc : compile (.map components) with
    | error e => exact ⟨e, rfl⟩
    | ok schema =>
      have hends := ((compiles_iff_registers hdots).mp ⟨schema, hc⟩).2.2
      exact absurd hendless (hends name hm)
  · intro e he
    exact link_error hdots h (herror he)
  · intro hroot
    have hc := checkType_ok_iff.mp hroot
    exact (seq_ok_iff.mp (link_ok_iff.mpr ⟨hc, closed_of_root_closed hdots h hc⟩)).2

/-- A map that refers to its own alias, and two references that only lead to each
other. -/
def cyclicComponents : Components :=
  [("node", .map [("type", .string "map"),
      ("items", .list [.map [("next", .map [("type", .string "link")])]])]),
    ("link", .map [("type", .string "node")]), ("a", .map [("type", .string "b")]),
    ("b", .map [("type", .string "a")])]

/-- The alias of the map is bound late; the two references are refused. -/
theorem cyclicComponents_endless :
    compile (.map cyclicComponents) = .error ⟨"", .unresolvedType "b"⟩ ∧
      ∃ name ∈ Entries.names cyclicComponents, Endless cyclicComponents name := by
  obtain ⟨root, p, hy⟩ :
      ∃ root p, Yields (registerAll cyclicComponents) Progress.start root p := ⟨_, _, rfl⟩
  exact ⟨rfl, (refused_iff_endless (by decide) (by decide) hy).1.mp ⟨_, rfl⟩⟩

end ComponentSchema
