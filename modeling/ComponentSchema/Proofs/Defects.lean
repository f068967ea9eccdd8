import ComponentSchema.Proofs.Unresolved

/-!
# Defects of a definition

Which defects the definition of a component has, said on the definition alone, and that
every error of a registration is about one of them: the path of the error names the
components that enclose the defective one, also when the defect is met while a reference
from somewhere else is followed. A repeated item is reported one level further in, at
the map that declares it twice.
-/

namespace ComponentSchema

open Registration Definition Linking Validation

/-! ## Defects of one component -/

/-- The definition has the defect. -/
inductive Defective (components : Components) (d : Tree) : Defect → Prop
  | noDefinition : d = .null → Defective components d .noDefinition
  | notMap : d ≠ .null → (∀ fields, d ≠ .map fields) → Defective components d .definitionNotMap
  | noType {fields : List (String × Tree)} : d = .map fields → d.get? "type" = none →
      Defective components d .noType
  | typeNotName {value : Tree} : d.get? "type" = some value → (∀ name, value ≠ .string name) →
      Defective components d .typeNotName
  | requiredNotBool {value : Tree} : d.get? "required" = some value →
      (∀ flag, value ≠ .bool flag) → Defective components d .requiredNotBool
  | unknownType {name : String} : d.get? "type" = some (.string name) →
      ¬ IsTypeName components name → Defective components d (.unknownType name)
  | noItems : form? d = some .map →
      d.get? "items" = none ∨ d.get? "items" = some .null ∨ d.get? "items" = some (.list []) →
      Defective components d .noComponentDefinitions
  | itemsNotList {value : Tree} : form? d = some .map → d.get? "items" = some value →
      value ≠ .null → (∀ groups, value ≠ .list groups) → Defective components d .itemsNotList
  | nullGroup {groups : List Tree} : form? d = some .map → d.get? "items" = some (.list groups) →
      .null ∈ groups → Defective components d .componentIsNone
  | emptyGroup {groups : List Tree} : form? d = some .map → d.get? "items" = some (.list groups) →
      .map [] ∈ groups → Defective components d .componentIsEmpty
  | groupNotMap {groups : List Tree} {group : Tree} : form? d = some .map →
      d.get? "items" = some (.list groups) → group ∈ groups → group ≠ .null →
      (∀ entries, group ≠ .map entries) → Defective components d .definitionNotMap
  | noItemTypes : form? d = some .list →
      d.get? "item_types" = none ∨ d.get? "item_types" = some .null →
      Defective components d .noItemTypes
  | emptyItemTypes : form? d = some .list → d.get? "item_types" = some (.list []) →
      Defective components d .emptyItemTypes
  | itemTypesNotList {value : Tree} : form? d = some .list → d.get? "item_types" = some value →
      value ≠ .null → (∀ entries, value ≠ .list entries) →
      Defective components d .itemTypesNotList
  | itemTypeNotName {entries : List Tree} {entry : Tree} : form? d = some .list →
      d.get? "item_types" = some (.list entries) → entry ∈ entries →
      (∀ name, entry ≠ .string name) → Defective components d .itemTypeNotName
  | unknownItemType {entries : List Tree} {name : String} : form? d = some .list →
      d.get? "item_types" = some (.list entries) → .string name ∈ entries →
      ¬ IsItemType components name → Defective components d (.unknownType name)
  | boundNotInt {bound : Bound} {value : Tree} : form? d = some .list →
      d.get? bound.attribute = some value → value ≠ .null → (∀ n, value ≠ .int n) →
      Defective components d (.boundNotInt bound)
  | boundNegative {bound : Bound} {n : Int} : form? d = some .list →
      d.get? bound.attribute = some (.int n) → n < 0 → Defective components d (.boundNegative bound)
  | boundsCrossed {low high : Nat} : form? d = some .list → bound? d .min = some low →
      bound? d .max = some high → high < low → Defective components d .minGreaterThanMax

/-- The error is about a component of the definition: it names a defect of the
component at the path of the components around it, or a name that the body of a map
declares twice at the path of the map. -/
inductive Blames (components : Components) : SchemaError → Prop
  | component {path : List String} {name : String} {d : Tree} {defect : Defect} :
      Occurs components path name d → Defective components d defect →
      Blames components (.below path defect)
  | duplicate {path : List String} {name item : String} {d : Tree} :
      Occurs components path name d → form? d = some .map →
      2 ≤ (Entries.names (members d)).count item →
      Blames components (.below (path ++ [name]) (.duplicateItem item))

/-- The error names a defect of the definition, below the components of the path. -/
def FaultOf (components : Components) (path : List String) (d : Tree) (e : SchemaError) : Prop :=
  ∃ defect, Defective components d defect ∧ e = .below path defect

theorem FaultOf.blames {components : Components} {path : List String} {name : String} {d : Tree}
    {e : SchemaError} (h : FaultOf components path d e) (ho : Occurs components path name d) :
    Blames components e := by
  obtain ⟨defect, hd, rfl⟩ := h
  exact .component ho hd

section

variable {components : Components} {enter : String → Session Unit} {path : List String}
  {name owner : String} {fields : List (String × Tree)} {p : Progress} {e : SchemaError}

/-! ## Errors of the attributes -/

theorem typeNameOf_fault (h : Fails (typeNameOf path fields) p e) :
    FaultOf components path (.map fields) e := by
  rw [typeNameOf] at h
  split at h
  next hn => exact ⟨_, .noType rfl hn, fails_refuse.mp h⟩
  next => exact absurd h fails_pure
  next value hne hv => exact ⟨_, .typeNotName hv fun name => hne name, fails_refuse.mp h⟩

theorem requiredOf_fault (h : Fails (requiredOf path fields) p e) :
    FaultOf components path (.map fields) e := by
  rw [requiredOf] at h
  split at h
  next => exact absurd h fails_pure
  next => exact absurd h fails_pure
  next value hne hv => exact ⟨_, .requiredNotBool hv fun flag => hne flag, fails_refuse.mp h⟩

theorem checkTarget_fault {typeName : String}
    (ht : (Tree.map fields).get? "type" = some (.string typeName))
    (h : Fails (checkTarget components path (.ofName typeName)) p e) :
    FaultOf components path (.map fields) e := by
  rw [checkTarget.eq_def] at h
  split at h
  next target hf =>
    rw [Form.ofName_eq_reference hf] at ht hf
    split at h
    next => exact absurd h fails_pure
    next hc =>
      refine ⟨_, .unknownType ht fun hk => hc ?_, fails_refuse.mp h⟩
      exact isTypeName_iff.mp hk target hf
  next => exact absurd h fails_pure

theorem boundOf_fault (hf : form? (.map fields) = some .list) {bound : Bound}
    (h : Fails (boundOf path fields bound) p e) : FaultOf components path (.map fields) e := by
  rw [boundOf] at h
  split at h
  next => exact absurd h fails_pure
  next => exact absurd h fails_pure
  next n hv =>
    split at h
    next => exact absurd h fails_pure
    next hn => exact ⟨_, .boundNegative hf hv (Int.not_le.mp hn), fails_refuse.mp h⟩
  next value hnull hint hv =>
    exact ⟨_, .boundNotInt hf hv hnull fun n => hint n, fails_refuse.mp h⟩

theorem boundedList_fault (hf : form? (.map fields) = some .list) {names : List String}
    (h : Fails (boundedList path names (bound? (.map fields) .min) (bound? (.map fields) .max))
      p e) : FaultOf components path (.map fields) e := by
  rw [boundedList.eq_def] at h
  split at h
  next low high hmin hmax =>
    split at h
    next hlt => exact ⟨_, .boundsCrossed hf hmin hmax hlt, fails_refuse.mp h⟩
    next => exact absurd h fails_pure
  next => exact absurd h fails_pure

/-! ## Errors while a name is given -/

theorem fails_aliasPrimitive {kind : PrimitiveKind} : ¬ Fails (aliasPrimitive name kind) p e := by
  rw [aliasPrimitive, fails_isBound_bind]
  cases p.registry.contains name with
  | true => simp
  | false => cases hk : p.registry.get? kind.name <;> simp [hk]

theorem fails_define {body : Session Descriptor} : Fails (define name body) p e ↔
    p.registry.contains name = false ∧ Fails body (p.update (·.reserve name)) e := by
  rw [define, fails_isBound_bind]
  cases p.registry.contains name <;> simp

theorem fails_aliasTarget {target : String} : Fails (aliasTarget enter name target) p e ↔
    p.registry.contains name = false ∧ Fails (enter target) (p.update (·.reserve name)) e := by
  rw [aliasTarget, fails_isBound_bind]
  cases p.registry.contains name with
  | true => simp
  | false =>
    rw [if_neg Bool.false_ne_true, fails_reserving, fails_bind]
    constructor
    · intro h
      rcases h with h | ⟨_, m, -, h⟩
      · exact ⟨rfl, h⟩
      · -- once the target is entered, nothing is refused any more
        rw [fails_get_bind] at h
        split at h
        · exact absurd h fails_pure
        · split at h
          · exact absurd h fails_pure
          · exact absurd h fails_modify
    · exact fun h => .inl h.2

/-! ## Errors of the bodies -/

/-- The error names an item that is declared twice among the names. -/
def Repeats (path names : List String) (e : SchemaError) : Prop :=
  ∃ item, 2 ≤ names.count item ∧ e = .below path (.duplicateItem item)

theorem Repeats.append {path names : List String} (h : Repeats path names e)
    (others : List String) : Repeats path (names ++ others) e := by
  obtain ⟨item, hi, rfl⟩ := h
  refine ⟨item, ?_, rfl⟩
  rw [List.count_append]
  omega

variable (hc : ∀ target, Conservative (enter target))

include hc

/-- Some member of the group is registered from a grounded registry, and fails. -/
def MemberFails (components : Components) (enter : String → Session Unit) (path : List String)
    (group : List (String × Tree)) (e : SchemaError) : Prop :=
  ∃ m ∈ group, ∃ q : Progress, q.registry.Grounded ∧
    Fails (register components enter path m.1 m.2) q e

omit hc in
theorem MemberFails.mono {group group' : List (String × Tree)}
    (h : MemberFails components enter path group e) (hs : ∀ m ∈ group, m ∈ group') :
    MemberFails components enter path group' e := by
  obtain ⟨m, hm, q, hq, hf⟩ := h
  exact ⟨m, hs m hm, q, hq, hf⟩

theorem addItems_fails {declared : Items} {group : List (String × Tree)}
    (hp : p.registry.Grounded) (h : Fails (addItems components enter path declared group) p e) :
    Repeats path (declared.map Item.name ++ Entries.names group) e ∨
      MemberFails components enter path group e := by
  induction group generalizing declared p with
  | nil => exact absurd h fails_pure
  | cons component rest ih =>
    obtain ⟨name, d⟩ := component
    rw [addItems] at h
    by_cases hd : declared.declares name
    · -- the name is among those declared before, and now comes again
      simp only [hd, if_true, refuse_bind, fails_refuse] at h
      have hold := List.one_le_count_iff.mpr (Items.declares_iff.mp hd)
      refine .inl ⟨name, ?_, h⟩
      simp only [Entries.names, List.map_cons, List.count_append, List.count_cons_self]
      omega
    · simp only [hd, Bool.false_eq_true, if_false, fails_bind] at h
      rcases h with h | ⟨⟨key, required⟩, m, hy, h⟩
      · exact .inr ⟨(name, d), List.mem_cons_self, p, hp, h⟩
      · have hreg : Conservative (register components enter path name d) :=
          .register hc path name d
        rcases ih (hreg.yields hp hy).1 h with h | h
        · refine .inl ?_
          simpa [Entries.names] using h
        · exact .inr (h.mono fun m hm => List.mem_cons_of_mem _ hm)

/-- The groups of a map: one of them is malformed, a name is declared twice over all
groups, or a member fails. -/
theorem itemEntries_fails {d : Tree} {all groups : List Tree} {declared : Items}
    (hf : form? d = some .map) (hi : d.get? "items" = some (.list all))
    (hs : ∀ group ∈ groups, group ∈ all) (hp : p.registry.Grounded)
    (h : Fails (itemEntries components enter path owner declared groups) p e) :
    FaultOf components path d e ∨
      Repeats (path ++ [owner])
        (declared.map Item.name ++ Entries.names (groups.flatMap Tree.entries)) e ∨
      MemberFails components enter (path ++ [owner]) (groups.flatMap Tree.entries) e := by
  induction groups generalizing declared p with
  | nil => exact absurd h fails_pure
  | cons group rest ih =>
    obtain ⟨hgroup, hrest⟩ := List.forall_mem_cons.mp hs
    rw [itemEntries, fails_bind, itemGroup.eq_def] at h
    split at h
    case h_1 =>
      refine .inl ⟨_, .nullGroup hf hi hgroup, ?_⟩
      simpa using h
    case h_2 =>
      refine .inl ⟨_, .emptyGroup hf hi hgroup, ?_⟩
      simpa using h
    case h_3 entries _ =>
      have hnames : declared.map Item.name ++ Entries.names ((Tree.map entries :: rest).flatMap
          Tree.entries) = (declared.map Item.name ++ Entries.names entries) ++
            Entries.names (rest.flatMap Tree.entries) := by
        simp [Entries.names, Tree.entries]
      rw [hnames, List.flatMap_cons]
      rcases h with h | ⟨found, m, hy, h⟩
      · rcases addItems_fails hc hp h with h | h
        · exact .inr (.inl (h.append _))
        · exact .inr (.inr (h.mono fun m hm => List.mem_append_left _ hm))
      · have hg := ((Conservative.addItems hc _ _ _).yields hp hy).1
        rw [← yields_addItems_names hy]
        rcases ih hrest hg h with h | h | h
        · exact .inl h
        · exact .inr (.inl h)
        · exact .inr (.inr (h.mono fun m hm => List.mem_append_right _ hm))
    case h_4 hnull _ hmap =>
      refine .inl ⟨_, .groupNotMap hf hi hgroup hnull fun entries => hmap entries, ?_⟩
      simpa using h

theorem mapBody_fails (hf : form? (.map fields) = some .map) (hp : p.registry.Grounded)
    (h : Fails (mapBody components enter path owner fields) p e) :
    FaultOf components path (.map fields) e ∨
      Repeats (path ++ [owner]) (Entries.names (members (.map fields))) e ∨
      MemberFails components enter (path ++ [owner]) (members (.map fields)) e := by
  rw [mapBody_eq] at h
  split at h
  next items hi =>
    rw [itemsOf.eq_def] at h
    split at h
    case h_1 => exact .inl ⟨_, .noItems hf (.inr (.inl hi)), fails_refuse.mp h⟩
    case h_2 => exact .inl ⟨_, .noItems hf (.inr (.inr hi)), fails_refuse.mp h⟩
    case h_3 groups _ =>
      have hmembers : members (.map fields) = groups.flatMap Tree.entries := by
        rw [members, show (Tree.map fields).get? "items" = some (.list groups) from hi]
      rw [hmembers]
      exact itemEntries_fails hc hf hi (fun _ hm => hm) hp h
    case h_4 hnull _ hlist =>
      exact .inl ⟨_, .itemsNotList hf hi hnull fun groups => hlist groups, fails_refuse.mp h⟩
  next hn => exact .inl ⟨_, .noItems hf (.inl hn), fails_refuse.mp h⟩

variable (he : ∀ {target : String} {q : Progress} {e : SchemaError},
  Entries.contains components target = true → q.registry.Grounded → Fails (enter target) q e →
  Blames components e)

include he

/-- An item type that is not bound is no kind, since the kinds always are. -/
theorem itemTypes_fails {d : Tree} {all entries : List Tree} (hf : form? d = some .list)
    (hi : d.get? "item_types" = some (.list all)) (hs : ∀ entry ∈ entries, entry ∈ all)
    (hp : p.registry.Grounded) (h : Fails (itemTypes components enter path entries) p e) :
    FaultOf components path d e ∨ Blames components e := by
  induction entries generalizing p with
  | nil => exact absurd h fails_pure
  | cons entry rest ih =>
    obtain ⟨hentry, hrest⟩ := List.forall_mem_cons.mp hs
    rw [itemTypes.eq_def] at h
    cases entry with
    | string name =>
      dsimp only at h
      rw [fails_isBound_bind] at h
      split at h
      next => exact ih hrest hp (by simpa using h)
      next hb =>
        split at h
        next hk =>
          rcases fails_bind.mp h with h | ⟨_, m, hy, h⟩
          · exact .inr (he hk hp h)
          · exact ih hrest ((hc name).yields hp hy).1 (by simpa using h)
        next hk =>
          refine .inl ⟨_, .unknownItemType hf hi hentry ?_, fails_refuse.mp h⟩
          intro ht
          rcases ht with ⟨kind, rfl⟩ | ht
          · exact hb (hp.contains_kind kind)
          · exact hk ht
    | _ => exact .inl ⟨_, .itemTypeNotName hf hi hentry (by simp), fails_refuse.mp h⟩

theorem itemTypesOf_fails (hf : form? (.map fields) = some .list) (hp : p.registry.Grounded)
    (h : Fails (itemTypesOf components enter path fields) p e) :
    FaultOf components path (.map fields) e ∨ Blames components e := by
  rw [itemTypesOf] at h
  split at h
  case h_1 hn => exact .inl ⟨_, .noItemTypes hf (.inl hn), fails_refuse.mp h⟩
  case h_2 hn => exact .inl ⟨_, .noItemTypes hf (.inr hn), fails_refuse.mp h⟩
  case h_3 hi => exact .inl ⟨_, .emptyItemTypes hf hi, fails_refuse.mp h⟩
  case h_4 entries _ hi => exact itemTypes_fails hc he hf hi (fun _ hm => hm) hp h
  case h_5 hnull _ hlist hi =>
    exact .inl ⟨_, .itemTypesNotList hf hi hnull fun entries => hlist entries, fails_refuse.mp h⟩

theorem listBody_fails (hf : form? (.map fields) = some .list) (hp : p.registry.Grounded)
    (h : Fails (listBody components enter path fields) p e) :
    FaultOf components path (.map fields) e ∨ Blames components e := by
  rw [listBody_eq, fails_bind] at h
  rcases h with h | ⟨names, m, -, h⟩
  · exact itemTypesOf_fails hc he hf hp h
  · simp only [fails_bind, yields_boundOf] at h
    rcases h with h | ⟨_, _, ⟨-, rfl, rfl⟩, h | ⟨_, _, ⟨-, rfl, rfl⟩, h⟩⟩
    · exact .inl (boundOf_fault hf h)
    · exact .inl (boundOf_fault hf h)
    · exact .inl (boundedList_fault hf h)

/-! ## Errors of a registration -/

/-- An error of the registration of a component is about the component itself, about one
inside it, or about one that a reference leads to. The induction is over the nesting of
components; references leave the definition through `enter`. -/
theorem register_blames {d : Tree} (ho : Occurs components path name d)
    (hp : p.registry.Grounded) (h : Fails (register components enter path name d) p e) :
    Blames components e := by
  induction d using nesting_induction generalizing path name p with
  | step d ih =>
    cases d with
    | null => exact FaultOf.blames ⟨_, .noDefinition rfl, fails_refuse.mp h⟩ ho
    | map fields =>
      simp only [register_map_eq, fails_bind, yields_typeNameOf, yields_requiredOf,
        yields_checkTarget, fails_pure, and_false, exists_false, or_false] at h
      rcases h with h | ⟨typeName, _, ⟨ht, rfl⟩, h | ⟨_, _, ⟨-, -, rfl⟩, h | ⟨_, _, ⟨hk, rfl⟩, h⟩⟩⟩
      · exact (typeNameOf_fault h).blames ho
      · exact (requiredOf_fault h).blames ho
      · exact (checkTarget_fault ht h).blames ho
      · have hf : form? (.map fields) = some (.ofName typeName) :=
          form?_eq_some_iff.mpr ⟨typeName, ht, rfl⟩
        have hreserved : ∀ {key}, p.registry.contains key = false →
            (p.update (·.reserve key)).registry.Grounded :=
          fun hn => hp.reserve (Registry.not_contains_iff.mp hn)
        generalize Form.ofName typeName = form at hf hk h
        cases form with
        | primitive kind =>
          rw [effect] at h
          split at h
          · exact absurd h fails_aliasPrimitive
          · exact absurd h fails_pure
        | reference target =>
          rw [effect] at h
          split at h
          · obtain ⟨hn, h⟩ := fails_aliasTarget.mp h
            exact he (hk target rfl) (hreserved hn) h
          · exact he (hk target rfl) hp h
        | list =>
          obtain ⟨hn, h⟩ := fails_define.mp h
          rcases listBody_fails hc he hf (hreserved hn) h with h | h
          · exact h.blames ho
          · exact h
        | map =>
          obtain ⟨hn, h⟩ := fails_define.mp h
          simp only [fails_bind, fails_pure, and_false, exists_false, or_false] at h
          rcases mapBody_fails hc hf (hreserved hn) h with h | h | h
          · exact h.blames ho
          · obtain ⟨item, hi, rfl⟩ := h
            exact .duplicate ho hf hi
          · obtain ⟨m, hm, q, hq, h⟩ := h
            exact ih m hm (.member ho hf hm) hq h
    | _ => exact FaultOf.blames ⟨_, .notMap (by simp) (by simp), fails_refuse.mp h⟩ ho

end

variable {components : Components}

/-- Following a reference fails only with errors about components, whatever the budget. -/
theorem enterWithin_blames {beyond : String → Session Unit}
    (hc : ∀ target, Conservative (beyond target))
    (hb : ∀ {target : String} {q : Progress} {e : SchemaError},
      Entries.contains components target = true → q.registry.Grounded →
      Fails (beyond target) q e → Blames components e)
    (budget : Nat) {target : String} {p : Progress} {e : SchemaError}
    (ht : Entries.contains components target = true) (hp : p.registry.Grounded)
    (h : Fails (enterWithin components beyond budget target) p e) : Blames components e := by
  induction budget generalizing target p e with
  | zero => exact hb ht hp h
  | succ budget ih =>
    obtain ⟨d, hd⟩ := Entries.contains_iff_get?.mp ht
    rw [enterWithin, fails_isBound_bind] at h
    split at h
    · exact absurd h fails_pure
    · rw [hd] at h
      exact register_blames (.enterWithin hc budget) ih (.top hd) hp (fails_discard.mp h)

/-- With distinct top-level names no error of a registration is about the definition as a
whole. -/
theorem registerAll_blames (hd : (Entries.names components).Nodup) {e : SchemaError}
    (h : Fails (registerAll components) Progress.start e) : Blames components e := by
  rcases addItems_fails (.enter_top components) .primitives h with h | h
  · obtain ⟨item, hi, -⟩ := h
    have := List.nodup_iff_count_le_one.mp hd item
    simp only [List.map_nil, List.nil_append] at hi
    omega
  · obtain ⟨m, hm, q, hq, h⟩ := h
    refine register_blames (.enter_top components) (fun ht hq h => ?_)
      (.top (Entries.get?_of_mem hd hm)) hq h
    exact enterWithin_blames (fun _ => .pure ()) (fun _ _ h => absurd h fails_pure) _ ht hq h

/-! ## Errors of a compilation -/

theorem checkType_error {r : Registry} {owner : String} {d : Descriptor} {e : SchemaError}
    (h : checkType r owner d = .error e) : ∃ name, e.defect = .unresolvedType name := by
  rw [checkType.eq_def] at h
  split at h
  next =>
    cases h
    exact ⟨owner, rfl⟩
  next =>
    obtain ⟨-, name, -, -, -, hr⟩ := forM_error h
    obtain ⟨-, rfl⟩ := checkReference_error hr
    exact ⟨name, rfl⟩

/-- Linking refuses nothing but unresolved types. -/
theorem link_error_unresolved {root : Items} {r : Registry} {e : SchemaError}
    (h : link root r = .error e) : ∃ name, e.defect = .unresolvedType name := by
  rcases seq_error_iff.mp h with h | ⟨-, h⟩
  · exact checkType_error h
  · obtain ⟨-, name, -, -, -, hr⟩ := forM_error h
    exact checkType_error hr

/-- A list of maps `a`; the map `b` in `a` has a member whose type is not known. -/
def danglingDefinition : Tree :=
  .map [("l", .map [("type", .string "list"), ("item_types", .list [.string "a"])]),
    ("a", .map [("type", .string "map"), ("items", .list [.map [("b",
      .map [("type", .string "map"), ("items", .list [.map [("x",
        .map [("type", .string "missing")])]])])]])])]

end ComponentSchema
