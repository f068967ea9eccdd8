import ComponentSchema.Proofs.Validation

/-!
# The length of a list

The bounds of a list type hold for the number of elements. An element maps tags to
values, and validation asks for no particular number of tags, so an element counts as one
whether it holds no value or several. Past the maximum nothing is looked at: a list that is
too long is refused within its first `max + 1` elements, for a fault inside them or for its
length.
-/

namespace ComponentSchema

open Validation

/-- The count is within the bounds. -/
structure ListType.Admits (type : ListType) (count : Nat) : Prop where
  min : ∀ low, type.min = some low → low ≤ count
  max : ∀ high, type.max = some high → count ≤ high

/-- The element holds one tagged value. -/
def Tree.IsTagged (element : Tree) : Prop := ∃ tag value, element = .map [(tag, value)]

/-- The tagged values of the elements of a list, in order. -/
def Tree.taggedValues (elements : List Tree) : List (String × Tree) :=
  elements.flatMap Tree.entries

/-- The same tagged values, each in an element of its own. -/
def Tree.separated (elements : List Tree) : List Tree :=
  (taggedValues elements).map fun entry => .map [entry]

/-! ## Counting elements and counting values -/

section

variable {r : Registry} {type : ListType} {place : Location} {elements : List Tree}

/-- A list is accepted for its elements and for their number. -/
theorem validate_list_ok_iff :
    (Descriptor.list type).validate r place (some (.list elements)) = .ok () ↔
      (∀ element ∈ elements, AcceptsElement r type element) ∧ type.Admits elements.length := by
  rw [Descriptor.validate, Option.getD_some, check_ok_iff, accepts_sequence_iff]
  constructor
  · intro h
    obtain ⟨_, hd, helements, hmax, hmin⟩ := h
    cases hd
    exact ⟨helements, hmin, hmax⟩
  · intro h
    exact ⟨type, rfl, h.1, h.2.max, h.2.min⟩

theorem Tree.mem_separated {element : Tree} :
    element ∈ separated elements ↔ ∃ other ∈ elements, ∃ entry ∈ other.entries,
      element = .map [entry] := by
  simp only [separated, taggedValues, List.mem_map, List.mem_flatMap]
  constructor
  · rintro ⟨entry, ⟨other, ho, hm⟩, rfl⟩
    exact ⟨other, ho, entry, hm, rfl⟩
  · rintro ⟨other, ho, entry, hm, rfl⟩
    exact ⟨entry, ⟨other, ho, hm⟩, rfl⟩

/-- Separating tagged values keeps them acceptable. -/
theorem acceptsElement_separated (h : ∀ element ∈ elements, AcceptsElement r type element)
    {element : Tree} (hm : element ∈ Tree.separated elements) : AcceptsElement r type element := by
  obtain ⟨other, ho, entry, he, rfl⟩ := Tree.mem_separated.mp hm
  obtain ⟨tagged, rfl, ht⟩ := h other ho
  rw [acceptsElement_map_iff]
  intro single hs
  obtain rfl := List.mem_singleton.mp hs
  exact ht single he

/-- Elements with one tagged value each are as many as their values. -/
theorem Tree.length_taggedValues (h : ∀ element ∈ elements, element.IsTagged) :
    (taggedValues elements).length = elements.length := by
  induction elements with
  | nil => rfl
  | cons element rest ih =>
    obtain ⟨⟨tag, value, rfl⟩, hrest⟩ := List.forall_mem_cons.mp h
    have hlength := ih hrest
    simp only [taggedValues, List.flatMap_cons, entries, List.length_append, List.length_cons,
      List.length_nil] at hlength ⊢
    omega

theorem acceptsElement_empty : AcceptsElement r type (.map []) := by
  simp [acceptsElement_map_iff]

/-- Elements without a tagged value are acceptable in any number that the bounds admit. -/
theorem validate_replicate_empty (r : Registry) (place : Location) {count : Nat}
    (h : type.Admits count) :
    (Descriptor.list type).validate r place (some (.list (List.replicate count (.map [])))) =
      .ok () := by
  rw [validate_list_ok_iff, List.length_replicate]
  refine ⟨fun element hm => ?_, h⟩
  rw [List.eq_of_mem_replicate hm]
  exact acceptsElement_empty

end

/-- The bounds hold for the elements of an accepted list, and every tag in them is allowed.
They hold for the tagged values if each element holds one, and in general exactly if the
list would be accepted with its tagged values in elements of their own. An element need
not hold one: it does in every accepted list only if no list but the empty one is
accepted. -/
theorem accepted_list_counts_elements (type : ListType) (r : Registry) (place : Location) :
    (∀ elements, (Descriptor.list type).validate r place (some (.list elements)) = .ok () →
      (∀ element ∈ elements, AcceptsElement r type element) ∧ type.Admits elements.length ∧
      ((∀ element ∈ elements, element.IsTagged) →
        type.Admits (Tree.taggedValues elements).length) ∧
      (type.Admits (Tree.taggedValues elements).length ↔
        (Descriptor.list type).validate r place (some (.list (Tree.separated elements))) =
          .ok ())) ∧
    ((∀ elements, (Descriptor.list type).validate r place (some (.list elements)) = .ok () →
        ∀ element ∈ elements, element.IsTagged) ↔
      ∀ elements, (Descriptor.list type).validate r place (some (.list elements)) = .ok () →
        elements = []) := by
  constructor
  · intro elements h
    obtain ⟨helements, hlength⟩ := validate_list_ok_iff.mp h
    refine ⟨helements, hlength, fun hsingle => ?_, ?_⟩
    · rwa [Tree.length_taggedValues hsingle]
    · have hcount : (Tree.separated elements).length = (Tree.taggedValues elements).length :=
        List.length_map _
      rw [validate_list_ok_iff, hcount]
      exact ⟨fun ha => ⟨fun _ => acceptsElement_separated helements, ha⟩, fun ha => ha.2⟩
  · constructor
    · intro hall elements h
      -- as many elements without a value are accepted as well
      have hempty := validate_replicate_empty r place (validate_list_ok_iff.mp h).2
      cases elements with
      | nil => rfl
      | cons element rest =>
        obtain ⟨tag, value, hv⟩ := hall _ hempty (.map []) (by simp)
        cases hv
    · intro hall elements h element hm
      rw [hall elements h] at hm
      cases hm

/-- A list of one integer or string. -/
def oneValue : ListType := ⟨["int", "string"], some 1, some 1⟩

theorem oneValue_counts :
    (Descriptor.list oneValue).validate .primitives .root
      (some (.list [.map [("string", .string "a")]])) = .ok () ∧
    oneValue.Admits (Tree.taggedValues [.map [("string", .string "a")]]).length := by
  have h : (Descriptor.list oneValue).validate .primitives .root
      (some (.list [.map [("string", .string "a")]])) = .ok () := rfl
  refine ⟨h, ((accepted_list_counts_elements oneValue .primitives .root).1 _ h).2.2.1 ?_⟩
  intro element hm
  exact ⟨"string", .string "a", List.mem_singleton.mp hm⟩

/-- One element without a value is accepted where one value is the minimum, and one with
two values where one is the maximum. -/
theorem oneValue_miscounts :
    ((Descriptor.list oneValue).validate .primitives .root (some (.list [.map []])) = .ok () ∧
      ¬ (Tree.map []).IsTagged ∧ ¬ oneValue.Admits (Tree.taggedValues [.map []]).length) ∧
    ((Descriptor.list oneValue).validate .primitives .root
        (some (.list [.map [("int", .int 1), ("string", .string "a")]])) = .ok () ∧
      ¬ (Tree.map [("int", .int 1), ("string", .string "a")]).IsTagged ∧
      ¬ oneValue.Admits
        (Tree.taggedValues [.map [("int", .int 1), ("string", .string "a")]]).length) := by
  refine ⟨⟨rfl, ?_, fun h => ?_⟩, rfl, ?_, fun h => ?_⟩
  · rintro ⟨tag, value, hv⟩
    cases hv
  · exact absurd (h.min 1 rfl) (by decide)
  · rintro ⟨tag, value, hv⟩
    cases hv
  · exact absurd (h.max 1 rfl) (by decide)

/-! ## Too many elements -/

theorem Location.length_render_pos (i : Nat) (route : List Segment) :
    0 < (Location.render (.index i :: route)).length := by
  have hindex : 0 < (Segment.render (.index i)).length := by
    simp only [Segment.render, String.length_append]
    exact Nat.add_pos_right _ (by decide)
  rw [Location.render, List.map_cons]
  cases route with
  | nil => rwa [List.map_nil, String.intercalate_singleton]
  | cons step rest =>
    rw [String.intercalate_cons_of_ne_nil (by simp), String.length_append, String.length_append]
    omega

/-- What is inside an element of a list has a longer path than the list. -/
theorem Location.length_render_lt (place : Location) (i : Nat) (route : List Segment) :
    place.render.length < (Location.render (place.index i ++ route)).length := by
  have hinner := length_render_pos i route
  rw [index, List.append_assoc, List.singleton_append]
  cases place with
  | nil => exact hinner
  | cons step rest =>
    rw [render, render, List.map_append, String.intercalate_append_of_ne_nil (by simp) (by simp),
      String.length_append, String.length_append]
    rw [render] at hinner
    omega

section

variable {r : Registry} {type : ListType} {place : Location} {position : Nat}
variable {e : ValidationError}

/-- The first thing wrong with an element, and the error that reports it: the element is no
mapping, or its first tagged value that is not acceptable has a tag that is not allowed or
an error of its own. -/
inductive ElementFails (r : Registry) (type : ListType) (place : Location) (position : Nat) :
    Tree → ValidationError → Prop
  | form {element : Tree} : (∀ tagged, element ≠ .map tagged) →
      ElementFails r type place position element
        ⟨(place.index position).render, .expectedType "map"⟩
  | tag {before after : List (String × Tree)} {tag : String} {value : Tree} :
      AcceptsElement r type (.map before) → tag ∉ type.itemTypes →
      ElementFails r type place position (.map (before ++ (tag, value) :: after))
        ⟨place.render, .unexpectedType tag⟩
  | value {before after : List (String × Tree)} {tag : String} {value : Tree}
      {e : ValidationError} :
      AcceptsElement r type (.map before) → tag ∈ type.itemTypes →
      (r.resolve tag).validate r (place.index position) (some value) = .error e →
      ElementFails r type place position (.map (before ++ (tag, value) :: after)) e

theorem checkElement_ok_iff_accepts {element : Tree} :
    checkElement r type place position element = .ok () ↔ AcceptsElement r type element := by
  simp [checkElement_ok_iff, AcceptsElement, check_ok_iff, ListType.allows]

theorem ElementFails.tag_head {tag : String} {value : Tree} {rest : List (String × Tree)}
    (ht : tag ∉ type.itemTypes) :
    ElementFails r type place position (.map ((tag, value) :: rest))
      ⟨place.render, .unexpectedType tag⟩ :=
  .tag acceptsElement_empty ht

theorem ElementFails.value_head {tag : String} {value : Tree} {rest : List (String × Tree)}
    (ht : tag ∈ type.itemTypes)
    (he : (r.resolve tag).validate r (place.index position) (some value) = .error e) :
    ElementFails r type place position (.map ((tag, value) :: rest)) e :=
  .value acceptsElement_empty ht he

theorem ElementFails.cons {tag : String} {value : Tree} {rest : List (String × Tree)}
    (ha : tag ∈ type.itemTypes) (hv : Accepts r (r.resolve tag) value)
    (h : ElementFails r type place position (.map rest) e) :
    ElementFails r type place position (.map ((tag, value) :: rest)) e := by
  have hbefore : ∀ {before}, AcceptsElement r type (.map before) →
      AcceptsElement r type (.map ((tag, value) :: before)) := by
    intro before hb
    rw [acceptsElement_map_iff] at hb ⊢
    exact List.forall_mem_cons.mpr ⟨⟨ha, hv⟩, hb⟩
  cases h with
  | form hne => exact absurd rfl (hne rest)
  | tag hb ht => exact .tag (hbefore hb) ht
  | value hb ht he => exact .value (hbefore hb) ht he

/-- What is reported of tagged values is the first thing wrong with them. -/
theorem checkTagged_fails {tagged : List (String × Tree)}
    (h : checkTagged r type place position tagged = .error e) :
    ElementFails r type place position (.map tagged) e := by
  induction tagged with
  | nil => cases h
  | cons entry rest ih =>
    obtain ⟨tag, value⟩ := entry
    rw [checkTagged] at h
    split at h
    next ha =>
      have hin : tag ∈ type.itemTypes := List.contains_iff_mem.mp ha
      rcases seq_error_iff.mp h with h | ⟨hv, h⟩
      · exact ElementFails.value_head hin h
      · exact (ih h).cons hin ((check_ok_iff _).mp hv)
    next ha =>
      cases h
      exact ElementFails.tag_head (mt List.contains_iff_mem.mpr ha)

theorem checkElement_fails {element : Tree}
    (h : checkElement r type place position element = .error e) :
    ElementFails r type place position element e := by
  rw [checkElement.eq_def] at h
  split at h
  next tagged => exact checkTagged_fails h
  next hne =>
    cases h
    exact .form hne

/-- No error of an element is that of the length of the list: what a value has wrong with
it is reported further in. -/
theorem ElementFails.ne_tooMany {element : Tree} {max : Nat}
    (h : ElementFails r type place position element e) :
    e ≠ ⟨place.render, .tooManyItems max⟩ := by
  intro heq
  cases h with
  | form _ => simp at heq
  | tag _ _ => simp at heq
  | value _ _ he =>
    obtain ⟨route, hp⟩ := check_error_path he
    have hlt := Location.length_render_lt place position route
    rw [← hp, heq] at hlt
    exact Nat.lt_irrefl _ hlt

/-- The first element that is not acceptable, and the error that reports it. -/
inductive FirstFailure (r : Registry) (type : ListType) (place : Location) :
    List Tree → ValidationError → Prop
  | intro {before after : List Tree} {element : Tree} {e : ValidationError} :
      (∀ other ∈ before, AcceptsElement r type other) →
      ElementFails r type place before.length element e →
      FirstFailure r type place (before ++ element :: after) e

theorem FirstFailure.ne_tooMany {elements : List Tree} {max : Nat}
    (h : FirstFailure r type place elements e) : e ≠ ⟨place.render, .tooManyItems max⟩ := by
  cases h with
  | intro _ hf => exact hf.ne_tooMany

theorem exists_first_refused {elements : List Tree}
    (h : ¬ ∀ element ∈ elements, AcceptsElement r type element) :
    ∃ before element after, elements = before ++ element :: after ∧
      (∀ other ∈ before, AcceptsElement r type other) ∧ ¬ AcceptsElement r type element := by
  induction elements with
  | nil => simp at h
  | cons element rest ih =>
    by_cases ha : AcceptsElement r type element
    · have hrest : ¬ ∀ element ∈ rest, AcceptsElement r type element :=
        fun hall => h (List.forall_mem_cons.mpr ⟨ha, hall⟩)
      obtain ⟨before, other, after, rfl, hb, ho⟩ := ih hrest
      exact ⟨element :: before, other, after, rfl, List.forall_mem_cons.mpr ⟨ha, hb⟩, ho⟩
    · exact ⟨[], element, rest, rfl, by simp, ha⟩

theorem checkElements_append (xs ys : List Tree) :
    checkElements r type place position (xs ++ ys) =
      checkElements r type place position xs >>= fun _ =>
        checkElements r type place (position + xs.length) ys := by
  induction xs generalizing position with
  | nil => rfl
  | cons element rest ih =>
    rw [List.cons_append, checkElements, checkElements, ih, List.length_cons]
    simp only [bind_assoc, Nat.add_assoc, Nat.add_comm 1]

/-- Acceptable elements within the maximum are passed over. -/
theorem checkElements_skip {before rest : List Tree} {max : Nat} (hmax : type.max = some max)
    (hb : ∀ other ∈ before, AcceptsElement r type other) (hlength : before.length ≤ max) :
    checkElements r type place 0 (before ++ rest) =
      checkElements r type place before.length rest := by
  have hok : checkElements r type place 0 before = .ok () := by
    rw [checkElements_ok_iff]
    refine ⟨fun i element hi => ?_, fun _ high hh => ?_⟩
    · exact checkElement_ok_iff_accepts.mpr (hb element (List.mem_of_getElem? hi))
    · cases hmax.symm.trans hh
      rwa [Nat.zero_add]
  rw [checkElements_append, hok, Nat.zero_add]
  rfl

/-- The element after as many as the maximum is the last one that is looked at. -/
theorem checkElements_tooMany {elements : List Tree} {max : Nat} (hmax : type.max = some max)
    (hlength : elements.length = max + 1)
    (h : ∀ element ∈ elements, AcceptsElement r type element) :
    checkElements r type place 0 elements = .error ⟨place.render, .tooManyItems max⟩ := by
  rcases List.eq_nil_or_concat elements with rfl | ⟨before, last, rfl⟩
  · cases hlength
  · rw [List.concat_eq_append] at hlength h ⊢
    obtain ⟨hb, hl⟩ := List.forall_mem_append.mp h
    have hbefore : before.length = max := by simpa using hlength
    have hlast : checkElement r type place before.length last = .ok () :=
      checkElement_ok_iff_accepts.mpr (hl last List.mem_cons_self)
    rw [checkElements_skip hmax hb (Nat.le_of_eq hbefore), checkElements, hlast, hbefore,
      checkMax, hmax]
    simp [bind, Except.bind, reject]

/-- An element that is not acceptable is reached if it is at most one too many. -/
theorem checkElements_firstFailure {elements : List Tree} {max : Nat}
    (hmax : type.max = some max) (hlength : elements.length = max + 1)
    (h : ¬ ∀ element ∈ elements, AcceptsElement r type element) :
    ∃ e, checkElements r type place 0 elements = .error e ∧
      FirstFailure r type place elements e := by
  obtain ⟨before, element, after, rfl, hb, hrefused⟩ := exists_first_refused h
  rw [List.length_append, List.length_cons] at hlength
  rw [checkElements_skip hmax hb (by omega), checkElements]
  cases hc : checkElement r type place before.length element with
  | ok _ => exact absurd (checkElement_ok_iff_accepts.mp hc) hrefused
  | error e => exact ⟨e, rfl, .intro hb (checkElement_fails hc)⟩

theorem validate_list_error {elements : List Tree}
    (h : checkElements r type place 0 elements = .error e) :
    (Descriptor.list type).validate r place (some (.list elements)) = .error e := by
  rw [Descriptor.validate, Option.getD_some, check, h]
  rfl

end

/-- A list with more elements than its maximum is refused, and with the same error as its
first `max + 1` elements alone. The error is that of the length exactly if each of these
elements is acceptable, and otherwise that of the first one that is not. -/
theorem too_many_short_circuits (type : ListType) (r : Registry) (place : Location) {max : Nat}
    (hmax : type.max = some max) {elements : List Tree} (hlength : max < elements.length) :
    ∃ e, (Descriptor.list type).validate r place (some (.list elements)) = .error e ∧
      (Descriptor.list type).validate r place (some (.list (elements.take (max + 1)))) =
        .error e ∧
      (e = ⟨place.render, .tooManyItems max⟩ ↔
        ∀ element ∈ elements.take (max + 1), AcceptsElement r type element) ∧
      ((¬ ∀ element ∈ elements.take (max + 1), AcceptsElement r type element) →
        FirstFailure r type place (elements.take (max + 1)) e) := by
  have htake : (elements.take (max + 1)).length = max + 1 := by
    rw [List.length_take]
    omega
  have hwhole : ∀ {e}, checkElements r type place 0 (elements.take (max + 1)) = .error e →
      checkElements r type place 0 elements = .error e := by
    intro e he
    rw [← List.take_append_drop (max + 1) elements, checkElements_append, he]
    rfl
  by_cases hall : ∀ element ∈ elements.take (max + 1), AcceptsElement r type element
  · have he : checkElements r type place 0 (elements.take (max + 1)) =
        .error ⟨place.render, .tooManyItems max⟩ := checkElements_tooMany hmax htake hall
    exact ⟨_, validate_list_error (hwhole he), validate_list_error he, iff_of_true rfl hall,
      fun hnot => absurd hall hnot⟩
  · obtain ⟨e, he, hf⟩ := checkElements_firstFailure hmax htake hall
    exact ⟨e, validate_list_error (hwhole he), validate_list_error he,
      iff_of_false hf.ne_tooMany hall, fun _ => hf⟩

/-- At most one value, though at least two are asked for. -/
def crossedBounds : ListType := ⟨["int"], some 2, some 1⟩

/-- Two integers, and an element that is no mapping. -/
def crowdedElements : List Tree := [.map [("int", .int 1)], .map [("int", .int 2)], .string "x"]

/-- The list is refused for its length: its third element is not looked at, and neither is
the minimum. -/
theorem crowdedElements_refused :
    crossedBounds.max = some 1 ∧ 1 < crowdedElements.length ∧
    (Descriptor.list crossedBounds).validate .primitives (Location.root.key "a")
      (some (.list crowdedElements)) = .error ⟨"a", .tooManyItems 1⟩ := by
  have hlength : 1 < crowdedElements.length := by decide
  have hall : ∀ element ∈ crowdedElements.take 2,
      AcceptsElement .primitives crossedBounds element := by
    intro element hm
    have hok : checkElement .primitives crossedBounds .root 0 element = .ok () := by
      rcases List.mem_cons.mp hm with rfl | hm
      · rfl
      · obtain rfl := List.mem_singleton.mp hm
        rfl
    exact checkElement_ok_iff_accepts.mp hok
  obtain ⟨e, he, -, htoo, -⟩ := too_many_short_circuits crossedBounds .primitives
    (Location.root.key "a") rfl hlength
  rw [htoo.mpr hall] at he
  exact ⟨rfl, hlength, he⟩

end ComponentSchema
