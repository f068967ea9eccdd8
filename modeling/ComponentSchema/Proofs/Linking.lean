import ComponentSchema.Proofs.Frame
import ComponentSchema.Proofs.Origin
import ComponentSchema.Proofs.Validation

/-!
# Linking

Linking checks every reference of every registered type, so a compiled schema is
closed: what it binds is finished and refers to finished types only. Validation
goes from type to type by name, and in a closed schema it never comes to a
placeholder.
-/

namespace ComponentSchema

open Registration Definition Linking Validation

/-! ## What linking checks -/

/-- The descriptor is finished and refers to finished types only. -/
structure Descriptor.ClosedIn (d : Descriptor) (r : Registry) : Prop where
  finished : d ≠ .incomplete
  references : ∀ name ∈ references d, r.Finished name

/-- Every descriptor that is bound is closed. -/
def Registry.Closed (r : Registry) : Prop :=
  ∀ {name object}, r.get? name = some object → object.descriptor.ClosedIn r

theorem forM_ok_iff {α ε : Type} {f : α → Except ε Unit} {l : List α} :
    l.forM f = .ok () ↔ ∀ a ∈ l, f a = .ok () := by
  induction l with
  | nil => simp [pure, Except.pure]
  | cons a rest ih =>
    have hcons : (a :: rest).forM f = f a >>= fun _ => rest.forM f := rfl
    rw [hcons, seq_ok_iff, ih, List.forall_mem_cons]

theorem checkReference_ok_iff {r : Registry} {owner name : String} :
    checkReference r owner name = .ok () ↔ r.Finished name := by
  rw [checkReference, ← Registry.isResolved_iff]
  cases r.isResolved name <;> simp

theorem checkType_ok_iff {r : Registry} {owner : String} {d : Descriptor} :
    checkType r owner d = .ok () ↔ d.ClosedIn r := by
  have hrefs : (references d).forM (checkReference r owner) = .ok () ↔
      ∀ name ∈ references d, r.Finished name := by
    simp only [forM_ok_iff, checkReference_ok_iff]
  rw [checkType.eq_def]
  split
  next =>
    constructor
    · intro h
      cases h
    · intro h
      exact absurd rfl h.finished
  next hne => exact hrefs.trans ⟨fun h => ⟨hne, h⟩, fun h => h.references⟩

theorem Registry.mem_typeNames_iff {r : Registry} {name : String} :
    name ∈ r.typeNames ↔ ∃ object, r.get? name = some object := by
  rw [typeNames, List.mem_mergeSort, Entries.mem_names_iff_get?]
  rfl

theorem link_ok_iff {root : Items} {r : Registry} :
    link root r = .ok () ↔ (Descriptor.map root).ClosedIn r ∧ r.Closed := by
  rw [link, seq_ok_iff, checkType_ok_iff, forM_ok_iff]
  simp only [checkType_ok_iff, Registry.mem_typeNames_iff]
  refine and_congr_right fun _ => ?_
  constructor
  · intro h name object ho
    have hc := h name ⟨object, ho⟩
    rwa [Registry.resolve_of_get? ho] at hc
  · intro h name hx
    obtain ⟨object, ho⟩ := hx
    rw [Registry.resolve_of_get? ho]
    exact h ho

/-! ## Compilation -/

/-- The registration of all components of a definition. -/
abbrev registerAll (components : Components) : Session Items :=
  addItems components (enter components) [] [] components

/-- The components are registered, starting from nothing but the kinds, and what is
registered is linked. -/
theorem ofComponents_outcome (components : Components) :
    (Compilation.ofComponents components).outcome =
      match outcome (registerAll components) Progress.start with
      | (.ok root, p) => link root p.registry >>= fun _ => .ok ⟨root, p.registry⟩
      | (.error e, _) => .error e := by
  rw [Compilation.ofComponents, ← outcome]
  rcases outcome (registerAll components) Progress.start
    with ⟨_ | root, p⟩ <;> rfl

theorem ofComponents_ok_iff {components : Components} {schema : Schema} :
    (Compilation.ofComponents components).outcome = .ok schema ↔ ∃ trace,
      Yields (registerAll components) Progress.start
        schema.root ⟨schema.registry, trace⟩ ∧
      (Descriptor.map schema.root).ClosedIn schema.registry ∧ schema.registry.Closed := by
  rw [ofComponents_outcome]
  rcases h : outcome (registerAll components) Progress.start
    with ⟨e | root, p⟩
  · simp [Yields, h]
  · obtain ⟨found, registry⟩ := schema
    obtain ⟨r, trace⟩ := p
    simp only [seq_ok_iff, link_ok_iff, Yields, h]
    constructor
    · intro hx
      obtain ⟨hl, ⟨rfl, rfl⟩⟩ := hx
      exact ⟨trace, rfl, hl⟩
    · intro hx
      obtain ⟨_, ⟨rfl, rfl, rfl⟩, hl⟩ := hx
      exact ⟨hl, rfl⟩

/-- Once the components are registered, only linking can refuse the definition. -/
theorem compile_of_yields {components : Components} {root : Items} {p : Progress}
    (hne : components ≠ []) (hy : Yields (registerAll components) Progress.start root p) :
    compile (.map components) = link root p.registry >>= fun _ => .ok ⟨root, p.registry⟩ := by
  cases components with
  | nil => exact absurd rfl hne
  | cons component rest =>
    have hof : compile (.map (component :: rest)) =
        (Compilation.ofComponents (component :: rest)).outcome := rfl
    rw [hof, ofComponents_outcome, hy]

theorem compile_ok_iff {definition : Tree} {schema : Schema} :
    compile definition = .ok schema ↔ ∃ components, definition = .map components ∧
      components ≠ [] ∧ ∃ trace,
        Yields (registerAll components) Progress.start
          schema.root ⟨schema.registry, trace⟩ ∧
        (Descriptor.map schema.root).ClosedIn schema.registry ∧ schema.registry.Closed := by
  rw [compile]
  cases definition with
  | map components =>
    cases components with
    | nil =>
      rw [Compilation.of]
      simp [Compilation.refused]
    | cons component rest =>
      have hof : Compilation.of (.map (component :: rest)) =
          .ofComponents (component :: rest) := rfl
      rw [hof, ofComponents_ok_iff]
      simp
  | _ => simp [Compilation.of, Compilation.refused]

/-- Linking needs no order: the bindings can be checked one by one. -/
theorem compile_ok_of_run {components : Components} {schema : Schema} {trace : List Registration}
    (hne : components ≠ [])
    (hy : Yields (registerAll components) Progress.start
      schema.root ⟨schema.registry, trace⟩)
    (hroot : (references (.map schema.root)).all schema.registry.isResolved = true)
    (hr : schema.registry.bindings.all (fun binding => !binding.2.descriptor.isIncomplete &&
      (references binding.2.descriptor).all schema.registry.isResolved) = true) :
    compile (.map components) = .ok schema := by
  simp only [List.all_eq_true, Bool.and_eq_true, Bool.not_eq_true',
    Descriptor.isIncomplete_eq_false_iff, Registry.isResolved_iff] at hroot hr
  refine compile_ok_iff.mpr ⟨components, rfl, hne, trace, hy, ⟨by simp, hroot⟩, ?_⟩
  intro name object ho
  obtain ⟨hf, hrefs⟩ := hr _ (Entries.mem_of_get? ho)
  exact ⟨hf, hrefs⟩

/-- The registry of a compiled schema binds the kinds, and no name twice. -/
theorem compile_grounded {definition : Tree} {schema : Schema}
    (h : compile definition = .ok schema) : schema.registry.Grounded := by
  obtain ⟨components, -, -, trace, hy, -⟩ := compile_ok_iff.mp h
  exact ((Conservative.addItems (.enter_top components) [] [] components).yields .primitives hy).1

/-! ## Validation in a closed registry -/

theorem checkAbsent_error {d : Descriptor} {place : Location} {e : ValidationError}
    (hd : d ≠ .incomplete) (h : checkAbsent d place = .error e) :
    e.violation ≠ .incompleteDefinition := by
  cases d with
  | incomplete => exact absurd rfl hd
  | primitive kind =>
    cases h
    simp
  | map items =>
    rw [checkAbsent] at h
    split at h
    next => cases h
    next => cases h; simp
  | list type =>
    rw [checkAbsent] at h
    split at h
    next =>
      split at h
      next => cases h; simp
      next => cases h
    next => cases h

/-- The type that a closed descriptor refers to is closed itself. -/
theorem Registry.Closed.resolve {r : Registry} (hr : r.Closed) {d : Descriptor}
    (hd : d.ClosedIn r) {name : String} (h : name ∈ references d) :
    (r.resolve name).ClosedIn r := by
  obtain ⟨object, ho, -⟩ := hd.references name h
  rw [resolve_of_get? ho]
  exact hr ho

/-- The check of a value against a closed descriptor never comes to a placeholder.
The induction is over the parts of the value: a part is checked against a type that
the descriptor refers to. -/
theorem Registry.Closed.check_error {r : Registry} (hr : r.Closed) {d : Descriptor}
    (hd : d.ClosedIn r) {place : Location} {value : Tree} {e : ValidationError}
    (h : check r d place value = .error e) : e.violation ≠ .incompleteDefinition := by
  induction value using Tree.part_induction generalizing d place with
  | step value ih =>
    cases value with
    | null => exact checkAbsent_error hd.finished h
    | map entries =>
      cases d with
      | incomplete => exact absurd rfl hd.finished
      | map items =>
        rw [check, seq_error_iff] at h
        rcases h with h | ⟨-, h⟩
        · obtain ⟨entry, hm, rfl | ⟨item, hf, hc⟩⟩ := checkEntries_error h
          · simp
          · have href : item.typeName ∈ references (.map items) :=
              List.mem_map_of_mem (Items.find?_mem hf).1
            exact ih entry.2 (Tree.entry_mem_parts hm) (hr.resolve hd href) hc
        · rw [checkRequired] at h
          split at h
          next => cases h; simp
          next => cases h
      | _ => cases h; simp
    | list elements =>
      cases d with
      | incomplete => exact absurd rfl hd.finished
      | list type =>
        rw [check, seq_error_iff] at h
        rcases h with h | ⟨-, h⟩
        · rcases checkElements_error h with ⟨max, rfl⟩ | ⟨i, element, hi, he⟩
          · simp
          · -- only the tagged values of a mapping are checked against a type
            have hin : element ∈ elements := List.mem_of_getElem? hi
            rw [checkElement.eq_def] at he
            split at he
            next tagged =>
              obtain ⟨entry, hm, rfl | ⟨ha, hc⟩⟩ := checkTagged_error he
              · simp
              · have href : entry.1 ∈ references (.list type) := List.contains_iff_mem.mp ha
                exact ih entry.2 (Tree.tagged_mem_parts hin hm) (hr.resolve hd href) hc
            next => cases he; simp
        · obtain ⟨min, rfl⟩ := checkMin_error h
          simp
      | _ => cases h; simp
    | _ =>
      cases d with
      | incomplete => exact absurd rfl hd.finished
      | primitive kind =>
        rw [check.eq_def] at h
        dsimp only at h
        split at h
        next => cases h
        next => cases h; simp
      | _ => cases h; simp

/-- A compiled schema is closed: it binds no placeholder, every type name in it is
bound to a finished descriptor, and no document is refused for an unfinished type. -/
theorem compiled_schema_closed {definition : Tree} {schema : Schema}
    (h : compile definition = .ok schema) :
    (∀ binding ∈ schema.registry.bindings, binding.2.descriptor ≠ .incomplete) ∧
    (∀ item ∈ schema.root, schema.registry.Finished item.typeName) ∧
    (∀ binding ∈ schema.registry.bindings, ∀ items, binding.2.descriptor = .map items →
      ∀ item ∈ items, schema.registry.Finished item.typeName) ∧
    (∀ binding ∈ schema.registry.bindings, ∀ type, binding.2.descriptor = .list type →
      ∀ name ∈ type.itemTypes, schema.registry.Finished name) ∧
    ∀ document e, schema.validate document = .error e →
      e.violation ≠ .incompleteDefinition := by
  have hg := compile_grounded h
  obtain ⟨-, -, -, -, -, hroot, hclosed⟩ := compile_ok_iff.mp h
  have hbound : ∀ binding ∈ schema.registry.bindings,
      binding.2.descriptor.ClosedIn schema.registry := by
    intro binding hm
    exact hclosed (Entries.get?_of_mem hg.distinct hm)
  refine ⟨?_, ?_, ?_, ?_, ?_⟩
  · intro binding hm
    exact (hbound binding hm).finished
  · intro item hm
    exact hroot.references _ (List.mem_map_of_mem hm)
  · intro binding hm items hd item hi
    have hc := hbound binding hm
    rw [hd] at hc
    exact hc.references _ (List.mem_map_of_mem hi)
  · intro binding hm type hd name hn
    have hc := hbound binding hm
    rw [hd] at hc
    exact hc.references name hn
  · intro document e he
    exact hclosed.check_error hroot he

/-- The schema of the recursive definition; `tree` shares the object of `node`. -/
def treeSchema : Schema where
  root := [⟨"tree", "node", true⟩, ⟨"node", "node", true⟩]
  registry :=
    { bindings := Registry.primitives.bindings ++
        [("tree", ⟨8, .map [⟨"children", "node.children", false⟩]⟩),
          ("node", ⟨8, .map [⟨"children", "node.children", false⟩]⟩),
          ("node.children", ⟨7, .list ⟨["node", "int"], none, none⟩⟩)]
      nextId := 9 }

theorem treeDefinition_compiles : compile treeDefinition = .ok treeSchema := by
  have hy : Yields (registerAll treeDefinition.entries) Progress.start treeSchema.root
      ⟨treeSchema.registry, [.component "node.children" "list", .component "node" "map",
        .alias "tree" "node"]⟩ := rfl
  exact compile_ok_of_run (by decide) hy (by decide) (by decide)

theorem treeSchema_closed :
    compile treeDefinition = .ok treeSchema ∧ ∀ document e,
      treeSchema.validate document = .error e → e.violation ≠ .incompleteDefinition :=
  ⟨treeDefinition_compiles, (compiled_schema_closed treeDefinition_compiles).2.2.2.2⟩

end ComponentSchema
