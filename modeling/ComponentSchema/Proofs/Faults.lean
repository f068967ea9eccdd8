import ComponentSchema.Proofs.Compiled

/-!
# Every violation of a document

Validation stops at the first violation. `faults` does not stop: it lists everything
that is wrong with a value, depth first in document order, each fault with the route
that leads to it from the value. Validation reports the first of them, at any place.
-/

namespace ComponentSchema

open Definition Validation

/-! ## Faults -/

/-- Something wrong inside a value: the route from the value to the part that is at
fault, and what is wrong with that part. -/
structure Fault where
  route : List Segment
  violation : Violation
  deriving DecidableEq

namespace Fault

/-- A fault of the value itself. -/
def here (violation : Violation) : Fault := ⟨[], violation⟩

/-- The fault of a part, seen from one step further out. -/
def under (step : Segment) (fault : Fault) : Fault := ⟨step :: fault.route, fault.violation⟩

/-- The error that reports the fault of a value at a place. -/
def reportAt (place : Location) (fault : Fault) : ValidationError :=
  ⟨Location.render (place ++ fault.route), fault.violation⟩

theorem reportAt_under (place : Location) (step : Segment) (fault : Fault) :
    (fault.under step).reportAt place = fault.reportAt (place ++ [step]) := by
  simp [reportAt, under]

end Fault

/-- The item declared under a name. -/
def Items.named? (items : Items) (name : String) : Option Item :=
  List.find? (fun item => item.name = name) items

/-! ## Collecting them -/

namespace Validation

/-- A value of the wrong kind has this one fault. -/
def wrongKind : Descriptor → Fault
  | .incomplete => .here .incompleteDefinition
  | d => .here (.expectedType d.kindName)

/-- The fault of a list with fewer elements than its minimum. -/
def tooFew (type : ListType) (count : Nat) : List Fault :=
  match type.min with
  | some min => if count < min then [.here (.tooFewItems min)] else []
  | none => []

/-- The fault of a list with more elements than its maximum. -/
def tooMany (type : ListType) (count : Nat) : List Fault :=
  match type.max with
  | some max => if max < count then [.here (.tooManyItems max)] else []
  | none => []

/-- One fault for each required item without a key, in declaration order. -/
def missing (items : Items) (keys : List String) : List Fault :=
  (items.filter fun item => item.required && !keys.contains item.name).map fun item =>
    .here (.missingRequiredItem item.name)

/-- An absent value has no elements and no components. -/
def absentFaults : Descriptor → List Fault
  | .map items => if items.any Item.required then [.here .noComponents] else []
  | .list type => tooFew type 0
  | d => [wrongKind d]

mutual

/-- Everything that is wrong with a value. -/
def faults (registry : Registry) (descriptor : Descriptor) : Tree → List Fault
  | .null => absentFaults descriptor
  | .map entries =>
      match descriptor with
      | .map items => entryFaults registry items entries ++ missing items (Entries.names entries)
      | other => [wrongKind other]
  | .list elements =>
      match descriptor with
      | .list type => elementsFaults registry type 0 elements ++ tooFew type elements.length
      | other => [wrongKind other]
  | scalar =>
      match descriptor with
      | .primitive kind => if kind.accepts scalar then [] else [wrongKind (.primitive kind)]
      | other => [wrongKind other]
termination_by structural value => value

/-- The faults of the entries of a map, key by key. -/
def entryFaults (registry : Registry) (items : Items) : List (String × Tree) → List Fault
  | [] => []
  | (key, value) :: rest =>
      (match items.named? key with
        | none => [.here (.unexpectedItem key)]
        | some item => (faults registry (registry.resolve item.typeName) value).map
            (.under (.key key)))
      ++ entryFaults registry items rest
termination_by structural entries => entries

/-- The faults of the elements of a list from `position` on; every element beyond the
maximum is one too many. -/
def elementsFaults (registry : Registry) (type : ListType) (position : Nat) :
    List Tree → List Fault
  | [] => []
  | element :: rest =>
      elementFaults registry type position element ++ tooMany type (position + 1)
        ++ elementsFaults registry type (position + 1) rest
termination_by structural elements => elements

/-- The faults of one element. -/
def elementFaults (registry : Registry) (type : ListType) (position : Nat) : Tree → List Fault
  | .map tagged => taggedFaults registry type position tagged
  | _ => [.under (.index position) (.here (.expectedType "map"))]
termination_by structural element => element

/-- The faults of the tagged values of an element, tag by tag. -/
def taggedFaults (registry : Registry) (type : ListType) (position : Nat) :
    List (String × Tree) → List Fault
  | [] => []
  | (tag, value) :: rest =>
      (if tag ∈ type.itemTypes then
        (faults registry (registry.resolve tag) value).map (.under (.index position))
      else [.here (.unexpectedType tag)])
      ++ taggedFaults registry type position rest
termination_by structural tagged => tagged

end

/-- Everything that is wrong with a value, as it is reported at a place. -/
def violations (registry : Registry) (descriptor : Descriptor) (place : Location) (value : Tree) :
    List ValidationError :=
  (faults registry descriptor value).map (Fault.reportAt place)

end Validation

/-! ## Reporting the first -/

namespace Validation

/-- Report the first of some faults, if there is one. -/
def report (place : Location) : List Fault → Except ValidationError Unit
  | [] => .ok ()
  | fault :: _ => .error (fault.reportAt place)

variable {r : Registry} {place : Location}

@[simp] theorem report_nil : report place [] = .ok () := rfl

@[simp] theorem report_here (violation : Violation) (others : List Fault) :
    report place (.here violation :: others) = reject place violation := by
  simp [report, Fault.reportAt, Fault.here, reject]

/-- The first of two groups of faults is reported before the second. -/
theorem report_append (first second : List Fault) :
    report place (first ++ second) = report place first >>= fun _ => report place second := by
  cases first <;> rfl

/-- Faults of a part are reported at the place of the part. -/
theorem report_under (step : Segment) (found : List Fault) :
    report place (found.map (.under step)) = report (place ++ [step]) found := by
  cases found with
  | nil => rfl
  | cons fault _ => rw [List.map_cons, report, report, Fault.reportAt_under]

theorem checkMin_eq_report (type : ListType) (count : Nat) :
    checkMin type count place = report place (tooFew type count) := by
  rw [checkMin, tooFew]
  cases type.min with
  | none => rfl
  | some min => by_cases h : count < min <;> simp [h]

theorem checkMax_eq_report (type : ListType) (count : Nat) :
    checkMax type count place = report place (tooMany type count) := by
  rw [checkMax, tooMany]
  cases type.max with
  | none => rfl
  | some max => by_cases h : max < count <;> simp [h]

theorem checkAbsent_eq_report (d : Descriptor) :
    checkAbsent d place = report place (absentFaults d) := by
  cases d with
  | primitive kind => exact (report_here _ _).symm
  | incomplete => exact (report_here _ _).symm
  | map items =>
    have hempty : items.required.isEmpty = !items.any Item.required := by
      rw [Bool.eq_iff_iff]
      simp [Items.required_eq_nil_iff]
    rw [checkAbsent, absentFaults, hempty]
    cases items.any Item.required <;> simp
  | list type =>
    exact checkMin_eq_report type 0

/-- With distinct names, the item that a key stands for is the one declared under it. -/
theorem find?_eq_named? {items : Items} (hd : (items.map Item.name).Nodup) (key : String) :
    items.find? key = items.named? key := by
  induction items with
  | nil => rfl
  | cons item rest ih =>
    obtain ⟨hf, hr⟩ := List.nodup_cons.mp hd
    rw [Items.find?, ih hr, Items.named?, Items.named?, List.find?_cons]
    by_cases hn : item.name = key
    · -- no later item has the name of this one
      have hnone : List.find? (fun other => decide (other.name = key)) rest = none := by
        rw [List.find?_eq_none]
        intro other hm ho
        rw [← hn] at ho
        exact hf (List.mem_map.mpr ⟨other, hm, by simpa using ho⟩)
      simp [hn, hnone]
    · simp only [hn, decide_false, if_false]
      split
      next later hl => exact hl.symm
      next hl => exact hl.symm

/-- With distinct names, the item that is reported missing is the first of those that
are. -/
theorem checkRequired_eq_report {items : Items} (hd : (items.map Item.name).Nodup)
    (keys : List String) :
    checkRequired items keys place = report place (missing items keys) := by
  rw [checkRequired]
  induction items with
  | nil => rfl
  | cons item rest ih =>
    obtain ⟨hf, hr⟩ := List.nodup_cons.mp hd
    have hlast : Items.declares rest item.name = false := by
      rw [← Bool.not_eq_true, Items.declares_iff]
      exact hf
    rw [Items.firstMissing?, hlast, Bool.not_false, Bool.and_true, missing, List.filter_cons]
    by_cases hm : item.required && !keys.contains item.name
    · rw [if_pos hm, if_pos hm, List.map_cons, report_here]
    · rw [if_neg hm, if_neg hm]
      exact ih hr

end Validation

/-! ## Distinct item names -/

/-- A map declares no name twice. -/
def Descriptor.ItemsDistinct : Descriptor → Prop
  | .map items => (items.map Item.name).Nodup
  | _ => True

/-- Every map that is bound declares no name twice. -/
def Registry.ItemsDistinct (r : Registry) : Prop :=
  ∀ {name object}, r.get? name = some object → object.descriptor.ItemsDistinct

theorem Registry.ItemsDistinct.resolve {r : Registry} (h : r.ItemsDistinct) (name : String) :
    (r.resolve name).ItemsDistinct := by
  cases hg : r.get? name with
  | none => simp [Registry.resolve, hg, Descriptor.ItemsDistinct]
  | some object =>
    rw [resolve_of_get? hg]
    exact h hg

namespace Validation

variable {r : Registry} {place : Location}

/-- The check of a part reports the first fault of the part, against whatever type and
at whatever place. -/
def ReportsFirst (r : Registry) (value : Tree) : Prop :=
  ∀ {d : Descriptor} {place : Location}, d.ItemsDistinct →
    check r d place value = report place (faults r d value)

theorem checkEntries_eq_report (hr : r.ItemsDistinct) {items : Items}
    (hd : (items.map Item.name).Nodup) {entries : List (String × Tree)}
    (hparts : ∀ entry ∈ entries, ReportsFirst r entry.2) :
    checkEntries r items place entries = report place (entryFaults r items entries) := by
  induction entries with
  | nil => rfl
  | cons entry rest ih =>
    obtain ⟨key, value⟩ := entry
    obtain ⟨hvalue, hrest⟩ := List.forall_mem_cons.mp hparts
    rw [checkEntries, entryFaults, report_append, ← ih hrest, find?_eq_named? hd]
    cases items.named? key with
    | none => rw [report_here]
    | some item =>
      dsimp only
      rw [report_under, hvalue (hr.resolve item.typeName)]
      rfl

theorem checkTagged_eq_report (hr : r.ItemsDistinct) {type : ListType} {position : Nat}
    {tagged : List (String × Tree)} (hparts : ∀ entry ∈ tagged, ReportsFirst r entry.2) :
    checkTagged r type place position tagged =
      report place (taggedFaults r type position tagged) := by
  induction tagged with
  | nil => rfl
  | cons entry rest ih =>
    obtain ⟨tag, value⟩ := entry
    obtain ⟨hvalue, hrest⟩ := List.forall_mem_cons.mp hparts
    rw [checkTagged, taggedFaults, report_append, ← ih hrest]
    by_cases ha : tag ∈ type.itemTypes
    · have hallows : type.allows tag = true := List.contains_iff_mem.mpr ha
      rw [if_pos ha, if_pos hallows, report_under, hvalue (hr.resolve tag)]
      rfl
    · have hallows : ¬ type.allows tag = true := mt List.contains_iff_mem.mp ha
      rw [if_neg ha, if_neg hallows, report_here]

theorem checkElement_eq_report (hr : r.ItemsDistinct) {type : ListType} {position : Nat}
    {element : Tree} (hparts : ∀ entry ∈ element.entries, ReportsFirst r entry.2) :
    checkElement r type place position element =
      report place (elementFaults r type position element) := by
  rw [checkElement.eq_def, elementFaults.eq_def]
  cases element with
  | map tagged => exact checkTagged_eq_report hr hparts
  | _ => rfl

/-- The maximum is looked at after each element, so an element that is one too many
comes after its own faults. -/
theorem checkElements_eq_report (hr : r.ItemsDistinct) {type : ListType} {position : Nat}
    {elements : List Tree}
    (hparts : ∀ element ∈ elements, ∀ entry ∈ element.entries, ReportsFirst r entry.2) :
    checkElements r type place position elements =
      report place (elementsFaults r type position elements) := by
  induction elements generalizing position with
  | nil => rfl
  | cons element rest ih =>
    obtain ⟨helement, hrest⟩ := List.forall_mem_cons.mp hparts
    rw [checkElements, elementsFaults, List.append_assoc, report_append, report_append,
      ← checkElement_eq_report hr helement, ← checkMax_eq_report, ← ih hrest]

/-- The check of a value reports the first fault of the value. The induction is over
the parts of the value, as a part may be checked against any type of the registry. -/
theorem check_eq_report (hr : r.ItemsDistinct) (value : Tree) : ReportsFirst r value := by
  induction value using Tree.part_induction with
  | step value ih =>
    intro d place hd
    cases value with
    | null => exact checkAbsent_eq_report d
    | map entries =>
      cases d with
      | map items =>
        rw [check, faults, report_append, checkRequired_eq_report hd,
          checkEntries_eq_report hr hd fun entry hm => ih entry.2 (Tree.entry_mem_parts hm)]
      | _ => exact (report_here _ _).symm
    | list elements =>
      cases d with
      | list type =>
        rw [check, faults, report_append, checkMin_eq_report, checkElements_eq_report hr]
        intro element hin entry hm
        exact ih entry.2 (Tree.element_mem_parts hin hm)
      | _ => exact (report_here _ _).symm
    | _ =>
      cases d with
      | primitive kind =>
        rw [check.eq_def, faults.eq_def]
        dsimp only
        split
        · rfl
        · exact (report_here _ _).symm
      | _ => exact (report_here _ _).symm

end Validation

theorem names_items (path : List String) (group : List (String × Tree)) :
    (group.map (item path)).map Item.name = Entries.names group :=
  List.map_map

/-- A descriptor that was read off a component declares the names of its members. -/
theorem Described.itemsDistinct {components : Components} {origin : Origin}
    {descriptor : Descriptor} (h : Described components origin descriptor) :
    descriptor.ItemsDistinct := by
  cases h with
  | primitive _ => trivial
  | map _ _ hbody _ =>
    rw [Descriptor.ItemsDistinct, names_items]
    exact hbody.distinct
  | list _ _ _ => trivial

/-- A compiled schema declares no item of a map twice. -/
theorem compile_itemsDistinct {definition : Tree} {schema : Schema}
    (h : compile definition = .ok schema) :
    schema.registry.ItemsDistinct ∧ schema.rootDescriptor.ItemsDistinct := by
  obtain ⟨components, rfl, -, trace, hy, -⟩ := compile_ok_iff.mp h
  obtain ⟨own, hreg⟩ := yields_registered hy
  refine ⟨?_, ?_⟩
  · intro name object ho
    exact (hreg.faithful.owned ho (hreg.descriptor_ne ho)).described.itemsDistinct
  · rw [Schema.rootDescriptor, hreg.items, Descriptor.ItemsDistinct, names_items]
    exact hreg.distinct

/-! ## Validation and the collection -/

/-- Validation accepts a value, or its absence, exactly when nothing is wrong with it,
and otherwise reports the first of all its violations. -/
theorem validate_eq_first_violation {r : Registry} {d : Descriptor} (hr : r.ItemsDistinct)
    (hd : d.ItemsDistinct) (place : Location) (value : Option Tree) :
    d.validate r place value =
      match violations r d place (value.getD .null) with
      | [] => .ok ()
      | first :: _ => .error first := by
  rw [Descriptor.validate, check_eq_report hr _ hd, violations]
  cases faults r d (value.getD .null) <;> rfl

/-- A document with a string for an integer, an element that is no mapping, an item
that is not declared, and without its tree. -/
def faultyDocument : Tree :=
  .map [("node", .map [("children", .list [.map [("int", .string "x")], .int 3])]),
    ("other", .null)]

/-- The document has four violations, and validation reports the one that comes first. -/
theorem faultyDocument_violations :
    treeSchema.registry.ItemsDistinct ∧ treeSchema.rootDescriptor.ItemsDistinct ∧
    violations treeSchema.registry treeSchema.rootDescriptor .root faultyDocument =
      [⟨"node.children.items[0]", .expectedType "int"⟩,
        ⟨"node.children.items[1]", .expectedType "map"⟩,
        ⟨"", .unexpectedItem "other"⟩, ⟨"", .missingRequiredItem "tree"⟩] ∧
    treeSchema.validate faultyDocument =
      .error ⟨"node.children.items[0]", .expectedType "int"⟩ := by
  obtain ⟨hr, hd⟩ := compile_itemsDistinct treeDefinition_compiles
  exact ⟨hr, hd, by decide, validate_eq_first_violation hr hd .root (some faultyDocument)⟩

end ComponentSchema
