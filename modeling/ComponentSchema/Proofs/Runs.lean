import ComponentSchema.Proofs.Definition
import ComponentSchema.Proofs.Registry
import ComponentSchema.Proofs.Session

/-!
# Registration by what a definition says

Each function of the registration in the words of `Definition`: which attributes
it needs to succeed, what it returns, and the one step that it then takes on the
registry. Later modules use these laws and never the functions' texts.
-/

namespace ComponentSchema

open Registration Definition

variable {components : Components} {enter : String → Session Unit} {path : List String}
  {name owner : String} {fields : List (String × Tree)} {p q : Progress}

/-! ## Attributes -/

theorem yields_typeNameOf {typeName : String} :
    Yields (typeNameOf path fields) p typeName q ↔
      (Tree.map fields).get? "type" = some (.string typeName) ∧ p = q := by
  simp only [typeNameOf, Tree.get?]
  cases h : Entries.get? fields "type" with
  | none => simp
  | some value => cases value <;> simp

theorem yields_requiredOf {required : Bool} :
    Yields (requiredOf path fields) p required q ↔
      ((Tree.map fields).get? "required" = none ∨
        ∃ b, (Tree.map fields).get? "required" = some (.bool b)) ∧
      isRequired (.map fields) = required ∧ p = q := by
  simp only [requiredOf, isRequired, Tree.get?]
  cases h : Entries.get? fields "required" with
  | none => simp
  | some value => cases value <;> simp

theorem yields_boundOf {bound : Bound} {limit : Option Nat} :
    Yields (boundOf path fields bound) p limit q ↔
      ((Tree.map fields).get? bound.attribute = none ∨
        (Tree.map fields).get? bound.attribute = some .null ∨
        ∃ n : Int, (Tree.map fields).get? bound.attribute = some (.int n) ∧ 0 ≤ n) ∧
      bound? (.map fields) bound = limit ∧ p = q := by
  simp only [boundOf, bound?, Tree.get?]
  cases h : Entries.get? fields bound.attribute with
  | none => simp
  | some value =>
    cases value with
    | int n =>
      by_cases hn : 0 ≤ n
      · simp [hn]
      · simp [hn]
    | _ => simp

/-! ## Naming a type -/

theorem yields_aliasPrimitive {kind : PrimitiveKind} {value : Unit} :
    Yields (aliasPrimitive name kind) p value q ↔
      (p.registry.contains name = true ∧ p = q) ∨
      (p.registry.contains name = false ∧ p.registry.get? kind.name = none ∧ p = q) ∨
      (p.registry.contains name = false ∧ ∃ object, p.registry.get? kind.name = some object ∧
        (p.record (.primitiveAlias name kind)).update (·.share name object) = q) := by
  rw [aliasPrimitive]
  cases hb : p.registry.contains name with
  | true => simp [hb]
  | false =>
    cases hk : p.registry.get? kind.name with
    | none => simp [hb, hk]
    | some object => simp [hb, hk]

theorem yields_define {body : Session Descriptor} {value : Unit} :
    Yields (define name body) p value q ↔
      (p.registry.contains name = true ∧ p = q) ∨
      (p.registry.contains name = false ∧ ∃ descriptor m,
        Yields body (p.update (·.reserve name)) descriptor m ∧
        ((m.record (.component name descriptor.kindName)).update (·.bind name descriptor)).update
          (·.release name) = q) := by
  rw [define]
  cases hb : p.registry.contains name with
  | true => simp [hb]
  | false =>
    rw [yields_isBound_bind, hb, if_neg Bool.false_ne_true, yields_reserving]
    simp only [yields_bind, yields_modify, Bool.false_eq_true, false_and, true_and, false_or]
    constructor
    · intro hx
      obtain ⟨_, ⟨descriptor, m, hm, rfl⟩, rfl⟩ := hx
      exact ⟨descriptor, m, hm, rfl⟩
    · intro hx
      obtain ⟨descriptor, m, hm, rfl⟩ := hx
      exact ⟨_, ⟨descriptor, m, hm, rfl⟩, rfl⟩

theorem yields_aliasTarget {target : String} {value : Unit} :
    Yields (aliasTarget enter name target) p value q ↔
      (p.registry.contains name = true ∧ p = q) ∨
      (p.registry.contains name = false ∧ ∃ m,
        Yields (enter target) (p.update (·.reserve name)) () m ∧
        ((¬ m.registry.Finished target ∧ m.update (·.release name) = q) ∨
          ∃ object, m.registry.get? target = some object ∧ object.descriptor ≠ .incomplete ∧
            ((m.record (.alias name target)).update (·.share name object)).update
              (·.release name) = q)) := by
  rw [aliasTarget]
  cases hb : p.registry.contains name with
  | true => simp [hb]
  | false =>
    rw [yields_isBound_bind, hb, if_neg Bool.false_ne_true, yields_reserving]
    simp only [yields_bind (x := enter target), yields_get_bind, Bool.false_eq_true, false_and,
      true_and, false_or]
    constructor
    · intro hx
      obtain ⟨m, ⟨_, n, he, hm⟩, rfl⟩ := hx
      refine ⟨n, he, ?_⟩
      -- the alias is bound only to a finished target
      cases hg : n.registry.get? target with
      | none =>
        simp only [hg, yields_pure, true_and] at hm
        subst hm
        exact .inl ⟨by simp [Registry.Finished, hg], rfl⟩
      | some object =>
        by_cases hi : object.descriptor = .incomplete
        · simp only [hg, hi, Descriptor.isIncomplete, if_true, yields_pure, true_and] at hm
          subst hm
          exact .inl ⟨by simp [Registry.Finished, hg, hi], rfl⟩
        · simp only [hg, Descriptor.isIncomplete_iff, hi, if_false, yields_modify] at hm
          exact .inr ⟨object, rfl, hi, by rw [hm]⟩
    · intro hx
      rcases hx with ⟨n, he, ⟨hf, rfl⟩ | ⟨object, hg, hi, rfl⟩⟩
      · refine ⟨n, ⟨(), n, he, ?_⟩, rfl⟩
        cases hg : n.registry.get? target with
        | none => simp
        | some object =>
          have hi : object.descriptor = .incomplete := by
            simpa [Registry.Finished, hg] using hf
          simp [hi, Descriptor.isIncomplete]
      · exact ⟨_, ⟨(), n, he, by simp [hg, hi]⟩, rfl⟩

/-! ## Components -/

/-- A type that is neither a kind nor composite must be a component. -/
def checkTarget (components : Components) (path : List String) : Form → Session Unit
  | .reference target =>
      if Entries.contains components target then pure ()
      else refuse path (.unknownType target)
  | _ => pure ()

/-- What the registration of a component does, by the form of its type. -/
def effect (components : Components) (enter : String → Session Unit) (path : List String)
    (name : String) (fields : List (String × Tree)) : Form → Session Unit
  | .primitive kind => if path.isEmpty then aliasPrimitive name kind else pure ()
  | .map =>
      define (dottedName path name) (return .map (← mapBody components enter path name fields))
  | .list => define (dottedName path name) (listBody components enter path fields)
  | .reference target => if path.isEmpty then aliasTarget enter name target else enter target

/-- The registration of a component reads its attributes and then takes one step. -/
theorem register_map_eq :
    register components enter path name (.map fields) = (do
      let typeName ← typeNameOf path fields
      let required ← requiredOf path fields
      checkTarget components path (.ofName typeName)
      effect components enter path name fields (.ofName typeName)
      return ((Form.ofName typeName).key path name, required)) := by
  rw [register]
  refine bind_congr fun typeName => bind_congr fun required => ?_
  rw [Form.ofName]
  cases PrimitiveKind.ofName? typeName with
  | some kind => by_cases he : path.isEmpty <;> simp [checkTarget, effect, Form.key, he]
  | none =>
    by_cases hm : typeName = "map"
    · simp [checkTarget, effect, Form.key, hm]
    by_cases hl : typeName = "list"
    · simp [checkTarget, effect, Form.key, hl]
    by_cases hc : Entries.contains components typeName
    · by_cases he : path.isEmpty <;> simp [checkTarget, effect, Form.key, hm, hl, hc, he]
    · simp [checkTarget, hm, hl, hc, refuse_bind]

theorem yields_checkTarget {form : Form} {value : Unit} :
    Yields (checkTarget components path form) p value q ↔
      (∀ target, form = .reference target → Entries.contains components target = true) ∧ p = q := by
  cases form with
  | reference target =>
    by_cases h : Entries.contains components target <;> simp [checkTarget, h]
  | _ => simp [checkTarget]

theorem yields_register {d : Tree} {key : String} {required : Bool} :
    Yields (register components enter path name d) p (key, required) q ↔
      ∃ fields form, d = .map fields ∧ form? d = some form ∧ WellHeaded components d ∧
        typeKey path name d = key ∧ isRequired d = required ∧
        Yields (effect components enter path name fields form) p () q := by
  cases d with
  | map fields =>
    simp only [register_map_eq, yields_bind, yields_typeNameOf, yields_requiredOf,
      yields_checkTarget, yields_pure, Prod.mk.injEq]
    constructor
    · intro hx
      obtain ⟨typeName, _, ⟨ht, rfl⟩, _, _, ⟨hr, rfl, rfl⟩, _, _, ⟨hk, rfl⟩, _, _, he,
        ⟨rfl, rfl⟩, rfl⟩ := hx
      have hf : form? (.map fields) = some (.ofName typeName) :=
        form?_eq_some_iff.mpr ⟨typeName, ht, rfl⟩
      exact ⟨fields, _, rfl, hf, ⟨⟨typeName, ht, isTypeName_iff.mpr hk⟩, hr⟩,
        typeKey_of_form hf, rfl, he⟩
    · intro hx
      obtain ⟨_, form, ⟨rfl⟩, hf, hh, rfl, rfl, he⟩ := hx
      obtain ⟨typeName, ht, rfl⟩ := form?_eq_some_iff.mp hf
      obtain ⟨other, ho, hk⟩ := hh.type
      rw [ht] at ho
      cases ho
      exact ⟨typeName, p, ⟨ht, rfl⟩, _, p, ⟨hh.required, rfl, rfl⟩, (), p,
        ⟨isTypeName_iff.mp hk, rfl⟩, (), q, he, ⟨(typeKey_of_form hf).symm, rfl⟩, rfl⟩
  | _ => simp [register]

/-! ## Bodies -/

theorem mapBody_eq : mapBody components enter path owner fields =
    match Entries.get? fields "items" with
    | some items => itemsOf components enter path owner items
    | none => refuse path .noComponentDefinitions := by
  induction fields with
  | nil => rfl
  | cons field rest ih =>
    obtain ⟨key, value⟩ := field
    rw [mapBody, Entries.get?_cons]
    by_cases hk : key = "items"
    · rw [if_pos hk, if_pos hk]
    · rw [if_neg hk, if_neg hk, ih]

theorem yields_addItems_cons {declared items : Items} {d : Tree} {rest : List (String × Tree)} :
    Yields (addItems components enter path declared ((name, d) :: rest)) p items q ↔
      declared.declares name = false ∧ ∃ typeName required m,
        Yields (register components enter path name d) p (typeName, required) m ∧
        Yields (addItems components enter path (declared ++ [⟨name, typeName, required⟩]) rest)
          m items q := by
  rw [addItems]
  by_cases hd : declared.declares name
  · simp [hd]
  · simp [hd]

/-- The items are named like the components, after those declared before. -/
theorem yields_addItems_names {declared items : Items} {group : List (String × Tree)}
    (h : Yields (addItems components enter path declared group) p items q) :
    items.map Item.name = declared.map Item.name ++ Entries.names group := by
  induction group generalizing declared p with
  | nil =>
    obtain ⟨rfl, rfl⟩ := yields_pure.mp h
    simp [Entries.names]
  | cons component rest ih =>
    obtain ⟨name, d⟩ := component
    obtain ⟨-, typeName, required, m, -, hrest⟩ := yields_addItems_cons.mp h
    rw [ih hrest]
    simp [Entries.names]

/-- A sequence of components is registered only if its names are new and distinct. -/
theorem yields_addItems_nodup {declared items : Items} {group : List (String × Tree)}
    (hd : (declared.map Item.name).Nodup)
    (h : Yields (addItems components enter path declared group) p items q) :
    (declared.map Item.name ++ Entries.names group).Nodup := by
  induction group generalizing declared p with
  | nil => simpa [Entries.names] using hd
  | cons component rest ih =>
    obtain ⟨name, d⟩ := component
    obtain ⟨hnew, typeName, required, m, -, hrest⟩ := yields_addItems_cons.mp h
    have hfresh : name ∉ declared.map Item.name := by
      rw [← Items.declares_iff, hnew]
      exact Bool.false_ne_true
    have hnext : (declared.map Item.name ++ [name]).Nodup := by
      refine List.nodup_append.mpr ⟨hd, by simp, ?_⟩
      intro a ha b hb hab
      rw [hab, List.mem_singleton.mp hb] at ha
      exact hfresh ha
    have hall := ih (by rwa [List.map_append, List.map_singleton]) hrest
    rw [List.map_append, List.map_singleton, List.append_assoc] at hall
    exact hall

/-- A sequence of components is registered part by part. -/
theorem yields_addItems_append {declared items : Items} {first rest : List (String × Tree)} :
    Yields (addItems components enter path declared (first ++ rest)) p items q ↔
      ∃ found m, Yields (addItems components enter path declared first) p found m ∧
        Yields (addItems components enter path found rest) m items q := by
  induction first generalizing declared p with
  | nil => simp [addItems, and_assoc]
  | cons component others ih =>
    obtain ⟨name, d⟩ := component
    rw [List.cons_append, yields_addItems_cons]
    simp only [yields_addItems_cons, ih]
    constructor
    · intro hx
      obtain ⟨hd, typeName, required, m, hr, found, n, ho, hs⟩ := hx
      exact ⟨found, n, ⟨hd, typeName, required, m, hr, ho⟩, hs⟩
    · intro hx
      obtain ⟨found, n, ⟨hd, typeName, required, m, hr, ho⟩, hs⟩ := hx
      exact ⟨hd, typeName, required, m, hr, found, n, ho, hs⟩

theorem yields_itemEntries {declared items : Items} {groups : List Tree} :
    Yields (itemEntries components enter path owner declared groups) p items q ↔
      (∀ group ∈ groups, ∃ first rest, group = .map (first :: rest)) ∧
      Yields (addItems components enter (path ++ [owner]) declared (groups.flatMap Tree.entries))
        p items q := by
  induction groups generalizing declared p with
  | nil => simp [itemEntries, addItems]
  | cons group rest ih =>
    rw [itemEntries, yields_bind, List.flatMap_cons, yields_addItems_append]
    simp only [ih, List.forall_mem_cons]
    rw [itemGroup.eq_def]
    cases group with
    | map entries =>
      cases entries with
      | nil => simp
      | cons first others => simp [Tree.entries]; grind
    | _ => simp

/-- The body of a map is one sequence of members. -/
theorem yields_mapBody {items : Items} :
    Yields (mapBody components enter path owner fields) p items q ↔
      (∃ groups, (Tree.map fields).get? "items" = some (.list groups) ∧ groups ≠ [] ∧
        ∀ group ∈ groups, ∃ first rest, group = .map (first :: rest)) ∧
      Yields (addItems components enter (path ++ [owner]) [] (members (.map fields)))
        p items q := by
  rw [mapBody_eq]
  simp only [members, Tree.get?]
  cases h : Entries.get? fields "items" with
  | none => simp
  | some value =>
    simp only [itemsOf.eq_def]
    cases value with
    | list groups =>
      cases groups with
      | nil => simp
      | cons group rest => simp [yields_itemEntries]
    | _ => simp

theorem yields_itemTypes_cons {entry : Tree} {rest : List Tree} {names : List String} :
    Yields (itemTypes components enter path (entry :: rest)) p names q ↔
      ∃ name tail m, entry = .string name ∧ names = name :: tail ∧
        ((p.registry.contains name = true ∧ p = m) ∨
          (p.registry.contains name = false ∧ Entries.contains components name = true ∧
            Yields (enter name) p () m)) ∧
        Yields (itemTypes components enter path rest) m tail q := by
  rw [itemTypes.eq_def]
  cases entry with
  | string name =>
    by_cases hb : p.registry.contains name
    · simp [hb]
      grind
    · by_cases hc : Entries.contains components name
      · simp [hb, hc]
        grind
      · simp [hb, hc]
  | _ => simp

/-- The item types of a list definition. -/
def itemTypesOf (components : Components) (enter : String → Session Unit) (path : List String)
    (fields : List (String × Tree)) : Session (List String) :=
  match Entries.get? fields "item_types" with
  | none | some .null => refuse path .noItemTypes
  | some (.list []) => refuse path .emptyItemTypes
  | some (.list entries) => itemTypes components enter path entries
  | some _ => refuse path .itemTypesNotList

/-- A list type, unless its bounds cross. -/
def boundedList (path : List String) (names : List String) (min max : Option Nat) :
    Session Descriptor :=
  match min, max with
  | some low, some high =>
      if high < low then refuse path .minGreaterThanMax else pure (.list (.of names min max))
  | _, _ => pure (.list (.of names min max))

theorem listBody_eq : listBody components enter path fields = (do
    let names ← itemTypesOf components enter path fields
    let min ← boundOf path fields .min
    let max ← boundOf path fields .max
    boundedList path names min max) := by
  have htail : ∀ {step : Session (List String)}, (do
      let names ← step
      let min ← boundOf path fields .min
      let max ← boundOf path fields .max
      match min, max with
      | some low, some high => if high < low then refuse path .minGreaterThanMax
      | _, _ => pure ()
      return .list (.of names min max)) = (do
      let names ← step
      let min ← boundOf path fields .min
      let max ← boundOf path fields .max
      boundedList path names min max) := by
    intro step
    refine bind_congr fun names => bind_congr fun min => bind_congr fun max => ?_
    rcases min with _ | low <;> rcases max with _ | high <;> rfl
  -- every branch on the attribute goes on with the same tail
  rw [listBody, itemTypesOf]
  cases Entries.get? fields "item_types" with
  | none => exact htail
  | some value =>
    cases value with
    | list entries => cases entries <;> exact htail
    | _ => exact htail

theorem yields_itemTypesOf {names : List String} :
    Yields (itemTypesOf components enter path fields) p names q ↔
      ∃ entries, (Tree.map fields).get? "item_types" = some (.list entries) ∧ entries ≠ [] ∧
        Yields (itemTypes components enter path entries) p names q := by
  simp only [itemTypesOf, Tree.get?]
  cases h : Entries.get? fields "item_types" with
  | none => simp
  | some value =>
    cases value with
    | list entries => cases entries <;> simp
    | _ => simp

theorem yields_boundedList {names : List String} {min max : Option Nat}
    {descriptor : Descriptor} :
    Yields (boundedList path names min max) p descriptor q ↔
      (∀ low high, min = some low → max = some high → low ≤ high) ∧
        .list (.of names min max) = descriptor ∧ p = q := by
  rcases min with _ | low <;> rcases max with _ | high <;> simp only [boundedList]
  case some.some =>
    by_cases h : high < low
    · simp [h, Nat.not_le_of_lt h]
    · simp [h, Nat.le_of_not_lt h]
  all_goals simp

/-- A list body needs its item types registered, its bounds well formed and in
order. -/
theorem yields_listBody {descriptor : Descriptor} :
    Yields (listBody components enter path fields) p descriptor q ↔
      ∃ names, Yields (itemTypesOf components enter path fields) p names q ∧
        (∀ bound : Bound, (Tree.map fields).get? bound.attribute = none ∨
          (Tree.map fields).get? bound.attribute = some .null ∨
          ∃ n : Int, (Tree.map fields).get? bound.attribute = some (.int n) ∧ 0 ≤ n) ∧
        (∀ low high, bound? (.map fields) .min = some low → bound? (.map fields) .max = some high →
          low ≤ high) ∧
        .list (.of names (bound? (.map fields) .min) (bound? (.map fields) .max)) = descriptor := by
  rw [listBody_eq]
  simp only [yields_bind, yields_boundOf, yields_boundedList]
  constructor
  · intro hx
    obtain ⟨names, _, hn, _, _, ⟨hmin, rfl, rfl⟩, _, _, ⟨hmax, rfl, rfl⟩, ho, hd, rfl⟩ := hx
    refine ⟨names, hn, fun bound => ?_, ho, hd⟩
    cases bound
    · exact hmin
    · exact hmax
  · intro hx
    obtain ⟨names, hn, hb, ho, hd⟩ := hx
    exact ⟨names, q, hn, _, q, ⟨hb .min, rfl, rfl⟩, _, q, ⟨hb .max, rfl, rfl⟩, ho, hd, rfl⟩

/-! ## Following a reference -/

theorem yields_enterWithin_succ {beyond : String → Session Unit} {budget : Nat} {value : Unit} :
    Yields (enterWithin components beyond (budget + 1) name) p value q ↔
      (p.registry.contains name = true ∧ p = q) ∨
      (p.registry.contains name = false ∧ ∃ d key required,
        Entries.get? components name = some d ∧
        Yields (register components (enterWithin components beyond budget) [] name d) p
          (key, required) q) := by
  rw [enterWithin]
  by_cases hb : p.registry.contains name
  · simp [hb]
  · cases hd : Entries.get? components name with
    | none => simp [hb]
    | some d => simp [hb]

end ComponentSchema
