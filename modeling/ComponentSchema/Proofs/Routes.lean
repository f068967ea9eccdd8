import ComponentSchema.Proofs.Faults

/-!
# Where a violation is

The route of a fault can be followed inside the value. It ends at a part for which some
rule holds, a type or the form of a list element, and the part breaks that rule in the
way the violation says. So an error of validation is true of the part that its path
names, and only the path depends on the place at which the value stands.
-/

namespace ComponentSchema

open Definition Linking Validation

/-! ## Trails

The text of a place is the same whether its segments are kept from the root down or found
by going up from the place. -/

namespace Trail

/-- The walk meets the segments of the place from the last one to the first. -/
theorem reverse_walk (trail : Trail) : trail.walk.reverse = trail.place.map Segment.render := by
  induction trail with
  | root => rfl
  | key parent name ih => simp [walk, place, Location.key, ih]
  | index parent position ih => simp [walk, place, Location.index, ih]

theorem render_eq (trail : Trail) : trail.render = trail.place.render := by
  rw [render, reverse_walk, Location.render]

theorem depth_eq (trail : Trail) : trail.depth = trail.place.depth := by
  induction trail with
  | root => rfl
  | key parent name ih => simp [depth, place, Location.depth, Location.key, ih]
  | index parent position ih => simp [depth, place, Location.depth, Location.index, ih]

end Trail

/-! ## Parts and rules -/

/-- The word for the kind of a value. -/
def Tree.kindName : Tree → String
  | .null => "null"
  | .bool _ => "bool"
  | .int _ => "int"
  | .float _ => "float"
  | .string _ => "string"
  | .list _ => "list"
  | .map _ => "map"

/-- The number of elements of a list; an absent list has none. -/
def Tree.count? : Tree → Option Nat
  | .null => some 0
  | .list elements => some elements.length
  | _ => none

/-- What a part of a document has to meet: a type, or the form that the elements of a
list have. -/
inductive Rule where
  | type (descriptor : Descriptor)
  | element (type : ListType)

/-- The route leads from a value of the type to a part of it, for which the rule holds. A
key goes to a member of a map. An index goes to an element of a list, or through the
element to a value that is tagged in it. -/
inductive Leads (r : Registry) : Descriptor → Tree → List Segment → Rule → Tree → Prop
  | here {d : Descriptor} {value : Tree} : Leads r d value [] (.type d) value
  | member {items : Items} {item : Item} {entries : List (String × Tree)} {inner part : Tree}
      {route : List Segment} {rule : Rule} : item ∈ items → (item.name, inner) ∈ entries →
      Leads r (r.resolve item.typeName) inner route rule part →
      Leads r (.map items) (.map entries) (.key item.name :: route) rule part
  | element {type : ListType} {elements : List Tree} {i : Nat} {part : Tree} :
      elements[i]? = some part →
      Leads r (.list type) (.list elements) [.index i] (.element type) part
  | tagged {type : ListType} {elements : List Tree} {i : Nat} {entries : List (String × Tree)}
      {tag : String} {inner part : Tree} {route : List Segment} {rule : Rule} :
      elements[i]? = some (.map entries) → (tag, inner) ∈ entries → tag ∈ type.itemTypes →
      Leads r (r.resolve tag) inner route rule part →
      Leads r (.list type) (.list elements) (.index i :: route) rule part

/-- The part breaks the rule, and the violation says how. -/
inductive Breaks : Rule → Tree → Violation → Prop
  | kind {d : Descriptor} {part : Tree} : d ≠ .incomplete → part.kindName ≠ d.kindName →
      Breaks (.type d) part (.expectedType d.kindName)
  | element {type : ListType} {part : Tree} : part.kindName ≠ "map" →
      Breaks (.element type) part (.expectedType "map")
  | absent {items : Items} {item : Item} : item ∈ items → item.required = true →
      Breaks (.type (.map items)) .null .noComponents
  | undeclared {items : Items} {entries : List (String × Tree)} {key : String} :
      key ∈ Entries.names entries → key ∉ items.map Item.name →
      Breaks (.type (.map items)) (.map entries) (.unexpectedItem key)
  | missing {items : Items} {entries : List (String × Tree)} {item : Item} : item ∈ items →
      item.required = true → item.name ∉ Entries.names entries →
      Breaks (.type (.map items)) (.map entries) (.missingRequiredItem item.name)
  | tag {type : ListType} {elements : List Tree} {entries : List (String × Tree)} {tag : String} :
      .map entries ∈ elements → tag ∈ Entries.names entries → tag ∉ type.itemTypes →
      Breaks (.type (.list type)) (.list elements) (.unexpectedType tag)
  | tooMany {type : ListType} {part : Tree} {max count : Nat} : type.max = some max →
      part.count? = some count → max < count →
      Breaks (.type (.list type)) part (.tooManyItems max)
  | tooFew {type : ListType} {part : Tree} {min count : Nat} : type.min = some min →
      part.count? = some count → count < min →
      Breaks (.type (.list type)) part (.tooFewItems min)

/-- The route of the fault leads to a part that breaks its rule in the way of the fault. -/
def Fault.Real (fault : Fault) (r : Registry) (d : Descriptor) (value : Tree) : Prop :=
  ∃ rule part, Leads r d value fault.route rule part ∧ Breaks rule part fault.violation

/-! ## Faults of a value as a whole -/

section

variable {r : Registry} {d : Descriptor} {value : Tree} {fault : Fault}

theorem Breaks.real {violation : Violation} (h : Breaks (.type d) value violation) :
    (Fault.here violation).Real r d value :=
  ⟨.type d, value, .here, h⟩

/-- A value of another kind than a finished type asks for. -/
theorem wrongKind_real (hd : d ≠ .incomplete) (hk : value.kindName ≠ d.kindName) :
    (wrongKind d).Real r d value := by
  have hwrong : wrongKind d = .here (.expectedType d.kindName) := by
    cases d with
    | incomplete => exact absurd rfl hd
    | _ => rfl
  rw [hwrong]
  exact (Breaks.kind hd hk).real

theorem accepts_iff_kindName {kind : PrimitiveKind} :
    kind.accepts value = true ↔ value.kindName = kind.name := by
  cases kind <;> cases value <;> simp [PrimitiveKind.accepts, PrimitiveKind.name, Tree.kindName]

theorem tooFew_real {type : ListType} {count : Nat} (hc : value.count? = some count)
    (h : fault ∈ tooFew type count) : fault.Real r (.list type) value := by
  rw [tooFew] at h
  split at h
  next min hmin =>
    split at h
    next hlt =>
      rw [List.mem_singleton.mp h]
      exact (Breaks.tooFew hmin hc hlt).real
    next => cases h
  next => cases h

/-- A count that was reached before the end is at most the length. -/
theorem tooMany_real {type : ListType} {elements : List Tree} {count : Nat}
    (hc : count ≤ elements.length) (h : fault ∈ tooMany type count) :
    fault.Real r (.list type) (.list elements) := by
  rw [tooMany] at h
  split at h
  next max hmax =>
    split at h
    next hlt =>
      rw [List.mem_singleton.mp h]
      exact (Breaks.tooMany hmax rfl (Nat.lt_of_lt_of_le hlt hc)).real
    next => cases h
  next => cases h

theorem absentFaults_real (hd : d ≠ .incomplete) (h : fault ∈ absentFaults d) :
    fault.Real r d .null := by
  cases d with
  | incomplete => exact absurd rfl hd
  | primitive kind =>
    rw [List.mem_singleton.mp h]
    exact wrongKind_real hd (by cases kind <;> decide)
  | map items =>
    rw [absentFaults] at h
    split at h
    next hany =>
      rw [List.mem_singleton.mp h]
      obtain ⟨item, hm, hreq⟩ := List.any_eq_true.mp hany
      exact (Breaks.absent hm hreq).real
    next => cases h
  | list type => exact tooFew_real rfl h

theorem missing_real {items : Items} {entries : List (String × Tree)}
    (h : fault ∈ missing items (Entries.names entries)) :
    fault.Real r (.map items) (.map entries) := by
  obtain ⟨item, hm, rfl⟩ := List.mem_map.mp h
  simp only [List.mem_filter, Bool.and_eq_true, Bool.not_eq_true', List.contains_eq_mem,
    decide_eq_false_iff_not] at hm
  obtain ⟨hin, hreq, hkey⟩ := hm
  exact (Breaks.missing hin hreq hkey).real

end

/-! ## Faults of the parts -/

section

variable {r : Registry} {fault : Fault}

/-- A fault of the entries is an undeclared key, or a fault of a member. -/
theorem mem_entryFaults {items : Items} {entries : List (String × Tree)} :
    fault ∈ entryFaults r items entries ↔ ∃ entry ∈ entries,
      (items.named? entry.1 = none ∧ fault = .here (.unexpectedItem entry.1)) ∨
      ∃ item, items.named? entry.1 = some item ∧
        ∃ inner ∈ faults r (r.resolve item.typeName) entry.2,
          inner.under (.key entry.1) = fault := by
  induction entries with
  | nil => simp [entryFaults]
  | cons entry rest ih =>
    obtain ⟨key, value⟩ := entry
    simp only [entryFaults, List.mem_append, ih, List.mem_cons, exists_eq_or_imp]
    refine or_congr_left ?_
    cases hn : items.named? key with
    | none => simp
    | some item => simp

/-- A fault of the tagged values is a tag that is not allowed, or a fault of a value. -/
theorem mem_taggedFaults {type : ListType} {position : Nat} {entries : List (String × Tree)} :
    fault ∈ taggedFaults r type position entries ↔ ∃ entry ∈ entries,
      (entry.1 ∉ type.itemTypes ∧ fault = .here (.unexpectedType entry.1)) ∨
      entry.1 ∈ type.itemTypes ∧ ∃ inner ∈ faults r (r.resolve entry.1) entry.2,
        inner.under (.index position) = fault := by
  induction entries with
  | nil => simp [taggedFaults]
  | cons entry rest ih =>
    obtain ⟨tag, value⟩ := entry
    simp only [taggedFaults, List.mem_append, ih, List.mem_cons, exists_eq_or_imp]
    refine or_congr_left ?_
    by_cases ha : tag ∈ type.itemTypes <;> simp [ha]

/-- A fault of the elements is one of an element, or stands behind an element that is
one too many. -/
theorem mem_elementsFaults {type : ListType} {position : Nat} {elements : List Tree}
    (h : fault ∈ elementsFaults r type position elements) :
    ∃ i element, elements[i]? = some element ∧
      (fault ∈ elementFaults r type (position + i) element ∨
        fault ∈ tooMany type (position + i + 1)) := by
  induction elements generalizing position with
  | nil => cases h
  | cons element rest ih =>
    rw [elementsFaults, List.append_assoc, List.mem_append, List.mem_append] at h
    rcases h with h | h | h
    · exact ⟨0, element, rfl, .inl h⟩
    · exact ⟨0, element, rfl, .inr h⟩
    · obtain ⟨i, other, hi, ho⟩ := ih h
      refine ⟨i + 1, other, hi, ?_⟩
      rwa [show position + (i + 1) = position + 1 + i by omega]

theorem named?_eq_some {items : Items} {name : String} {item : Item}
    (h : items.named? name = some item) : item ∈ items ∧ item.name = name :=
  ⟨List.mem_of_find?_eq_some h, by simpa using List.find?_some h⟩

theorem named?_eq_none {items : Items} {name : String} (h : items.named? name = none) :
    name ∉ items.map Item.name := by
  intro hm
  obtain ⟨item, hin, rfl⟩ := List.mem_map.mp hm
  exact List.find?_eq_none.mp h item hin (by simp)

/-- The faults of a type that the value is checked against are real. -/
def FaultsReal (r : Registry) (value : Tree) : Prop :=
  ∀ {d : Descriptor} {fault : Fault}, d.ClosedIn r → fault ∈ faults r d value →
    fault.Real r d value

theorem entryFaults_real (hr : r.Closed) {items : Items} {entries : List (String × Tree)}
    (hd : (Descriptor.map items).ClosedIn r)
    (hparts : ∀ entry ∈ entries, FaultsReal r entry.2)
    (h : fault ∈ entryFaults r items entries) : fault.Real r (.map items) (.map entries) := by
  obtain ⟨entry, hm, ⟨hn, rfl⟩ | ⟨item, hi, inner, hin, rfl⟩⟩ := mem_entryFaults.mp h
  · exact (Breaks.undeclared (List.mem_map_of_mem hm) (named?_eq_none hn)).real
  · obtain ⟨hitem, hname⟩ := named?_eq_some hi
    have hclosed := hr.resolve hd (List.mem_map_of_mem hitem)
    obtain ⟨rule, part, hl, hb⟩ := hparts entry hm hclosed hin
    rw [← hname]
    exact ⟨rule, part, .member hitem (by rwa [hname]) hl, hb⟩

theorem elementFaults_real (hr : r.Closed) {type : ListType} {elements : List Tree} {i : Nat}
    {element : Tree} (hd : (Descriptor.list type).ClosedIn r) (hi : elements[i]? = some element)
    (hparts : ∀ entry ∈ element.entries, FaultsReal r entry.2)
    (h : fault ∈ elementFaults r type i element) :
    fault.Real r (.list type) (.list elements) := by
  rw [elementFaults.eq_def] at h
  split at h
  next entries =>
    obtain ⟨entry, hm, ⟨ha, rfl⟩ | ⟨ha, inner, hin, rfl⟩⟩ := mem_taggedFaults.mp h
    · exact (Breaks.tag (List.mem_of_getElem? hi) (List.mem_map_of_mem hm) ha).real
    · obtain ⟨rule, part, hl, hb⟩ := hparts entry hm (hr.resolve hd ha) hin
      exact ⟨rule, part, .tagged hi hm ha hl, hb⟩
  next hne =>
    rw [List.mem_singleton.mp h]
    refine ⟨.element type, element, .element hi, .element fun hk => ?_⟩
    cases element with
    | map entries => exact hne entries rfl
    | _ => simp [Tree.kindName] at hk

theorem faults_primitive (kind : PrimitiveKind) (value : Tree) :
    faults r (.primitive kind) value =
      if kind.accepts value then [] else [wrongKind (.primitive kind)] := by
  rw [faults.eq_def]
  cases value with
  | null => cases kind <;> rfl
  | map entries => cases kind <;> rfl
  | list elements => cases kind <;> rfl
  | _ => rfl

/-- Everything that is found wrong with a value is wrong with it. The induction is over
the parts of the value, as each is governed by a type of its own. -/
theorem faults_real (hr : r.Closed) (value : Tree) : FaultsReal r value := by
  induction value using Tree.part_induction with
  | step value ih =>
    intro d fault hd h
    have hwrong : value.kindName ≠ d.kindName → fault ∈ [wrongKind d] → fault.Real r d value := by
      intro hk h
      rw [List.mem_singleton.mp h]
      exact wrongKind_real hd.finished hk
    cases d with
    | incomplete => exact absurd rfl hd.finished
    | primitive kind =>
      rw [faults_primitive] at h
      split at h
      next => cases h
      next hk => exact hwrong (mt accepts_iff_kindName.mpr hk) h
    | map items =>
      cases value with
      | null => exact absentFaults_real hd.finished h
      | map entries =>
        rw [faults, List.mem_append] at h
        rcases h with h | h
        · exact entryFaults_real hr hd (fun entry hm => ih entry.2 (Tree.entry_mem_parts hm)) h
        · exact missing_real h
      | _ => exact hwrong (by simp [Tree.kindName, Descriptor.kindName]) h
    | list type =>
      cases value with
      | null => exact absentFaults_real hd.finished h
      | list elements =>
        rw [faults, List.mem_append] at h
        rcases h with h | h
        · obtain ⟨i, element, hi, h⟩ := mem_elementsFaults h
          rw [Nat.zero_add] at h
          rcases h with h | h
          · refine elementFaults_real hr hd hi (fun entry hm => ih entry.2 ?_) h
            exact Tree.element_mem_parts (List.mem_of_getElem? hi) hm
          · exact tooMany_real (List.getElem?_eq_some_iff.mp hi).1 h
        · exact tooFew_real rfl h
      | _ => exact hwrong (by simp [Tree.kindName, Descriptor.kindName]) h

end

/-! ## Errors of a compiled schema -/

/-- The descriptors of a schema: its root map, and those that are registered. -/
inductive Schema.Reaches (schema : Schema) : Descriptor → Prop
  | root : Reaches schema schema.rootDescriptor
  | bound {name : String} {object : DescriptorObject} :
      schema.registry.get? name = some object → Reaches schema object.descriptor

/-- A value passes at every place or at none. If it does not pass, there is one route and
one violation for all places: the path of the error is the place followed by the route,
the route leads to a part of the value, and the part breaks its rule in the way of the
violation. -/
theorem error_points_at_violation {definition : Tree} {schema : Schema}
    (h : compile definition = .ok schema) {d : Descriptor} (hd : schema.Reaches d)
    (value : Option Tree) :
    (∀ place, d.validate schema.registry place value = .ok ()) ∨
    ∃ route violation,
      (∀ place, d.validate schema.registry place value =
        .error ⟨Location.render (place ++ route), violation⟩) ∧
      ∃ rule part, Leads schema.registry d (value.getD .null) route rule part ∧
        Breaks rule part violation := by
  obtain ⟨hdistinct, hroot⟩ := compile_itemsDistinct h
  obtain ⟨-, -, -, -, -, hcroot, hclosed⟩ := compile_ok_iff.mp h
  obtain ⟨hitems, hc⟩ : d.ItemsDistinct ∧ d.ClosedIn schema.registry := by
    cases hd with
    | root => exact ⟨hroot, hcroot⟩
    | bound ho => exact ⟨hdistinct ho, hclosed ho⟩
  have hreport : ∀ place, d.validate schema.registry place value =
      report place (faults schema.registry d (value.getD .null)) :=
    fun place => check_eq_report hdistinct _ hitems
  cases hf : faults schema.registry d (value.getD .null) with
  | nil =>
    refine .inl fun place => ?_
    rw [hreport, hf, report_nil]
  | cons fault rest =>
    refine .inr ⟨fault.route, fault.violation, fun place => ?_, ?_⟩
    · rw [hreport, hf]
      rfl
    · refine faults_real hclosed (value.getD .null) hc ?_
      rw [hf]
      exact List.mem_cons_self

/-- Of the ways into the children of the faulty document one has the path of its first
violation and ends at a part at fault. The first child has the form of an element, so it
is not the child itself. -/
theorem faultyChildren_leads {route : List Segment} {rule : Rule} {part : Tree}
    {violation : Violation}
    (hpath : Location.render (.key "node" :: .key "children" :: route) = "node.children.items[0]")
    (hb : Breaks rule part violation)
    (hl : Leads treeSchema.registry (.list ⟨["node", "int"], none, none⟩)
      (.list [.map [("int", .string "x")], .int 3]) route rule part) :
    route = [.index 0] ∧ rule = .type (.primitive .int) ∧ part = .string "x" := by
  cases hl with
  | here => exact absurd hpath (by decide)
  | @element _ _ i _ hi =>
    match i with
    | 0 =>
      cases hi
      cases hb with
      | element hk => exact absurd rfl hk
    | 1 => exact absurd hpath (by decide)
    | i + 2 => simp at hi
  | @tagged _ _ i _ _ _ _ _ _ hi htag _ hl =>
    match i with
    | 0 =>
      cases hi
      cases List.mem_singleton.mp htag
      have hint : treeSchema.registry.resolve "int" = .primitive .int := rfl
      rw [hint] at hl
      cases hl with
      | here => exact ⟨rfl, rfl, rfl⟩
    | 1 => simp at hi
    | i + 2 => simp at hi

/-- The same from the document on: it has no tree, so the way goes to the node and from
there to the children. -/
theorem faultyDocument_leads {route : List Segment} {rule : Rule} {part : Tree}
    {violation : Violation} (hpath : Location.render route = "node.children.items[0]")
    (hb : Breaks rule part violation)
    (hl : Leads treeSchema.registry treeSchema.rootDescriptor faultyDocument route rule part) :
    route = [.key "node", .key "children", .index 0] ∧ rule = .type (.primitive .int) ∧
      part = .string "x" := by
  cases hl with
  | here => exact absurd hpath (by decide)
  | member hitem hentry hl =>
    simp only [treeSchema, List.mem_cons, List.not_mem_nil, or_false] at hitem
    rcases hitem with rfl | rfl
    · simp at hentry
    · obtain rfl : _ = Tree.map [("children", .list [.map [("int", .string "x")], .int 3])] := by
        simpa using hentry
      have hnode : treeSchema.registry.resolve "node" =
          .map [⟨"children", "node.children", false⟩] := rfl
      rw [hnode] at hl
      cases hl with
      | here => exact absurd hpath (by decide)
      | member hitem hentry hl =>
        cases List.mem_singleton.mp hitem
        cases List.mem_singleton.mp hentry
        obtain ⟨rfl, hrule, hpart⟩ := faultyChildren_leads hpath hb hl
        exact ⟨rfl, hrule, hpart⟩

/-- The faulty document is refused, at every place because of the string under its first
child. -/
theorem faultyDocument_pointed :
    compile treeDefinition = .ok treeSchema ∧ treeSchema.Reaches treeSchema.rootDescriptor ∧
    (∀ place, treeSchema.rootDescriptor.validate treeSchema.registry place (some faultyDocument) =
      .error ⟨Location.render (place ++ [.key "node", .key "children", .index 0]),
        .expectedType "int"⟩) ∧
    Location.render [.key "node", .key "children", .index 0] = "node.children.items[0]" ∧
    Leads treeSchema.registry treeSchema.rootDescriptor faultyDocument
      [.key "node", .key "children", .index 0] (.type (.primitive .int)) (.string "x") ∧
    Breaks (.type (.primitive .int)) (.string "x") (.expectedType "int") := by
  have hroot : treeSchema.rootDescriptor.validate treeSchema.registry .root
      (some faultyDocument) = .error ⟨"node.children.items[0]", .expectedType "int"⟩ := rfl
  obtain hok | ⟨route, violation, herr, rule, part, hleads, hbreaks⟩ :=
    error_points_at_violation treeDefinition_compiles .root (some faultyDocument)
  · cases hok .root
  · -- the evaluation at the root tells the path and the violation, and these the way
    have herror := Except.error.inj ((herr .root).symm.trans hroot)
    have hpath : Location.render route = "node.children.items[0]" :=
      congrArg ValidationError.path herror
    obtain rfl : violation = .expectedType "int" := congrArg ValidationError.violation herror
    obtain ⟨rfl, rfl, rfl⟩ := faultyDocument_leads hpath hbreaks hleads
    exact ⟨treeDefinition_compiles, .root, herr, hpath, hleads, hbreaks⟩

end ComponentSchema
