import ComponentSchema.Proofs.Definition
import ComponentSchema.Proofs.Registry
import ComponentSchema.Validation

/-!
# Laws of validation

What a value must be like to be accepted, without the place at which it is
checked, and where an error of a collection comes from.
-/

namespace ComponentSchema

/-! ## Items -/

namespace Items

theorem find?_mem {items : Items} {name : String} {item : Item}
    (h : items.find? name = some item) : item ∈ items ∧ item.name = name := by
  induction items with
  | nil => cases h
  | cons first rest ih =>
    rw [find?] at h
    split at h
    next later hl =>
      cases h
      obtain ⟨hm, hn⟩ := ih hl
      exact ⟨List.mem_cons_of_mem _ hm, hn⟩
    next =>
      split at h
      next hn =>
        cases h
        exact ⟨List.mem_cons_self, hn⟩
      next => cases h

/-- With distinct names an item is the one that is found under its name. -/
theorem find?_of_mem {items : Items} {item : Item} (hd : (items.map Item.name).Nodup)
    (h : item ∈ items) : items.find? item.name = some item := by
  induction items with
  | nil => cases h
  | cons first rest ih =>
    obtain ⟨hf, hr⟩ := List.nodup_cons.mp hd
    rw [find?]
    rcases List.mem_cons.mp h with rfl | h
    · cases hl : find? rest item.name with
      | none => simp
      | some later =>
        obtain ⟨hm, hn⟩ := find?_mem hl
        exact absurd (List.mem_map.mpr ⟨later, hm, hn⟩) hf
    · rw [ih hr h]

theorem find?_eq_some_iff {items : Items} {name : String} {item : Item}
    (hd : (items.map Item.name).Nodup) :
    items.find? name = some item ↔ item ∈ items ∧ item.name = name := by
  constructor
  · exact find?_mem
  · intro hx
    obtain ⟨hm, rfl⟩ := hx
    exact find?_of_mem hd hm

/-- A required item is not missing if a key stands for it and it is the last one of its
name. -/
theorem firstMissing?_cons_eq_none_iff {item : Item} {rest : Items} {keys : List String} :
    firstMissing? (item :: rest) keys = none ↔
      (item.required = true → item.name ∈ keys ∧ declares rest item.name = false) ∧
        rest.firstMissing? keys = none := by
  rw [firstMissing?]
  cases hq : item.required with
  | false => simp
  | true =>
    cases hl : declares rest item.name with
    | true => simp
    | false => by_cases hk : item.name ∈ keys <;> simp [hk]

theorem firstMissing?_eq_none_iff {items : Items} {keys : List String}
    (hd : (items.map Item.name).Nodup) :
    items.firstMissing? keys = none ↔
      ∀ item ∈ items, item.required = true → item.name ∈ keys := by
  induction items with
  | nil => simp [firstMissing?]
  | cons item rest ih =>
    obtain ⟨hf, hr⟩ := List.nodup_cons.mp hd
    have hlast : declares rest item.name = false := by
      rw [← Bool.not_eq_true, declares_iff]
      exact hf
    rw [firstMissing?_cons_eq_none_iff, List.forall_mem_cons, ih hr, hlast]
    simp

/-- More keys leave no more items missing. -/
theorem firstMissing?_mono {items : Items} {keys keys' : List String} (hk : keys ⊆ keys')
    (h : items.firstMissing? keys = none) : items.firstMissing? keys' = none := by
  induction items with
  | nil => rfl
  | cons item rest ih =>
    rw [firstMissing?_cons_eq_none_iff] at h ⊢
    exact ⟨fun hq => ⟨hk (h.1 hq).1, (h.1 hq).2⟩, ih h.2⟩

theorem required_eq_nil_iff {items : Items} :
    items.required = [] ↔ ∀ item ∈ items, item.required = false := by
  simp [required]

end Items

namespace Validation

variable {r : Registry} {place : Location}

/-! ## Success of the parts -/

theorem seq_ok_iff {ε β : Type} {x : Except ε Unit} {f : Unit → Except ε β} {b : β} :
    (x >>= f) = .ok b ↔ x = .ok () ∧ f () = .ok b := by
  cases x with
  | error e => simp [bind, Except.bind]
  | ok a => simp [bind, Except.bind]

@[simp] theorem reject_ne_ok {α : Type} {violation : Violation} {a : α} :
    (reject place violation : Except ValidationError α) ≠ .ok a := by
  simp [reject]

theorem checkEntries_ok_iff {items : Items} {entries : List (String × Tree)} :
    checkEntries r items place entries = .ok () ↔ ∀ entry ∈ entries, ∃ item,
      items.find? entry.1 = some item ∧
        check r (r.resolve item.typeName) (place.key entry.1) entry.2 = .ok () := by
  induction entries with
  | nil => simp [checkEntries]
  | cons entry rest ih =>
    obtain ⟨key, value⟩ := entry
    rw [checkEntries, List.forall_mem_cons, ← ih]
    cases hf : items.find? key with
    | none => simp [seq_ok_iff]
    | some item => simp [seq_ok_iff]

theorem checkTagged_ok_iff {type : ListType} {position : Nat} {tagged : List (String × Tree)} :
    checkTagged r type place position tagged = .ok () ↔ ∀ entry ∈ tagged,
      type.allows entry.1 = true ∧
        check r (r.resolve entry.1) (place.index position) entry.2 = .ok () := by
  induction tagged with
  | nil => simp [checkTagged]
  | cons entry rest ih =>
    obtain ⟨tag, value⟩ := entry
    rw [checkTagged, List.forall_mem_cons, ← ih]
    by_cases ha : type.allows tag
    · simp [ha, seq_ok_iff]
    · simp [ha, seq_ok_iff]

theorem checkElement_ok_iff {type : ListType} {position : Nat} {element : Tree} :
    checkElement r type place position element = .ok () ↔ ∃ tagged, element = .map tagged ∧
      ∀ entry ∈ tagged, type.allows entry.1 = true ∧
        check r (r.resolve entry.1) (place.index position) entry.2 = .ok () := by
  rw [checkElement.eq_def]
  cases element with
  | map tagged => simp [checkTagged_ok_iff]
  | _ => simp

theorem checkMax_ok_iff {type : ListType} {count : Nat} :
    checkMax type count place = .ok () ↔ ∀ max, type.max = some max → count ≤ max := by
  rw [checkMax]
  cases type.max with
  | none => simp
  | some max =>
    by_cases h : max < count
    · simp [h]
    · simp [h, Nat.le_of_not_lt h]

theorem checkMin_ok_iff {type : ListType} {count : Nat} :
    checkMin type count place = .ok () ↔ ∀ min, type.min = some min → min ≤ count := by
  rw [checkMin]
  cases type.min with
  | none => simp
  | some min =>
    by_cases h : count < min
    · simp [h]
    · simp [h, Nat.le_of_not_lt h]

/-- The running check of the maximum comes to one check of the final count. -/
theorem checkElements_ok_iff {type : ListType} {position : Nat} {elements : List Tree} :
    checkElements r type place position elements = .ok () ↔
      (∀ i element, elements[i]? = some element →
        checkElement r type place (position + i) element = .ok ()) ∧
      (elements ≠ [] → ∀ max, type.max = some max → position + elements.length ≤ max) := by
  induction elements generalizing position with
  | nil => simp [checkElements]
  | cons element rest ih =>
    rw [checkElements, seq_ok_iff, seq_ok_iff, checkMax_ok_iff, ih]
    -- the check after the last element is the strictest one
    constructor
    · intro hx
      obtain ⟨he, hmax, hrest, htail⟩ := hx
      refine ⟨fun i other hi => ?_, fun _ max hm => ?_⟩
      · cases i with
        | zero => cases hi; exact he
        | succ i =>
          rw [show position + (i + 1) = position + 1 + i by omega]
          exact hrest i other hi
      · cases rest with
        | nil => exact hmax max hm
        | cons next others =>
          have := htail (by simp) max hm
          simp only [List.length_cons] at this ⊢
          omega
    · intro hx
      obtain ⟨he, hmax⟩ := hx
      have hlen := hmax (by simp)
      simp only [List.length_cons] at hlen
      refine ⟨he 0 element rfl, fun max hm => ?_, fun i other hi => ?_, fun _ max hm => ?_⟩
      · have := hlen max hm
        omega
      · rw [show position + 1 + i = position + (i + 1) by omega]
        exact he (i + 1) other hi
      · have := hlen max hm
        omega

theorem checkRequired_ok_iff {items : Items} {keys : List String} :
    checkRequired items keys place = .ok () ↔ items.firstMissing? keys = none := by
  rw [checkRequired]
  cases items.firstMissing? keys <;> simp

theorem check_map_ok_iff {items : Items} {entries : List (String × Tree)} :
    check r (.map items) place (.map entries) = .ok () ↔
      (∀ entry ∈ entries, ∃ item, items.find? entry.1 = some item ∧
        check r (r.resolve item.typeName) (place.key entry.1) entry.2 = .ok ()) ∧
      items.firstMissing? (Entries.names entries) = none := by
  rw [check, seq_ok_iff, checkEntries_ok_iff, checkRequired_ok_iff]

theorem check_list_ok_iff {type : ListType} {elements : List Tree} :
    check r (.list type) place (.list elements) = .ok () ↔
      (∀ i element, elements[i]? = some element →
        checkElement r type place i element = .ok ()) ∧
      (∀ max, type.max = some max → elements.length ≤ max) ∧
      (∀ min, type.min = some min → min ≤ elements.length) := by
  rw [check, seq_ok_iff, checkElements_ok_iff, checkMin_ok_iff]
  simp only [Nat.zero_add]
  cases elements with
  | nil => simp
  | cons element rest => simp [and_assoc]

theorem checkAbsent_ok_iff {d : Descriptor} :
    checkAbsent d place = .ok () ↔
      (∃ items, d = .map items ∧ items.required = []) ∨
      (∃ type, d = .list type ∧ ∀ min, type.min = some min → min = 0) := by
  cases d with
  | map items =>
    rw [checkAbsent]
    cases h : items.required <;> simp [h]
  | list type =>
    rw [checkAbsent]
    cases hmin : type.min with
    | none => simp [hmin]
    | some min =>
      by_cases h : 0 < min
      · simp [hmin, h, Nat.ne_of_gt h]
      · simp [hmin, Nat.eq_zero_of_not_pos h]
  | _ => simp [checkAbsent]

theorem check_primitive_ok_iff {kind : PrimitiveKind} {value : Tree} :
    check r (.primitive kind) place value = .ok () ↔ kind.accepts value = true := by
  cases value with
  | null => cases kind <;> simp [check, checkAbsent, PrimitiveKind.accepts]
  | map entries => cases kind <;> simp [check, PrimitiveKind.accepts]
  | list elements => cases kind <;> simp [check, PrimitiveKind.accepts]
  | _ =>
    rw [check.eq_def]
    dsimp only
    split
    next ha => simp [ha]
    next ha => simp [ha]

/-- A success at one place is a success at every place: each part is checked
against the same descriptor at a place of its own. -/
theorem check_ok_anywhere {d : Descriptor} {value : Tree} {other : Location}
    (h : check r d place value = .ok ()) : check r d other value = .ok () := by
  induction value using Tree.part_induction generalizing d place other with
  | step value ih =>
    cases value with
    | null =>
      rw [check, checkAbsent_ok_iff] at h ⊢
      exact h
    | map entries =>
      cases d with
      | map items =>
        rw [check_map_ok_iff] at h ⊢
        refine ⟨fun entry hm => ?_, h.2⟩
        obtain ⟨item, hf, hc⟩ := h.1 entry hm
        exact ⟨item, hf, ih entry.2 (Tree.entry_mem_parts hm) hc⟩
      | _ => cases h
    | list elements =>
      cases d with
      | list type =>
        rw [check_list_ok_iff] at h ⊢
        refine ⟨fun i element hi => ?_, h.2⟩
        have hin : element ∈ elements := List.mem_of_getElem? hi
        obtain ⟨tagged, rfl, ht⟩ := checkElement_ok_iff.mp (h.1 i element hi)
        refine checkElement_ok_iff.mpr ⟨tagged, rfl, fun entry hm => ⟨(ht entry hm).1, ?_⟩⟩
        exact ih entry.2 (Tree.tagged_mem_parts hin hm) (ht entry hm).2
      | _ => cases h
    | _ =>
      cases d with
      | primitive kind =>
        rw [check_primitive_ok_iff] at h ⊢
        exact h
      | _ => cases h

/-! ## Where an error comes from -/

theorem seq_error_iff {ε β : Type} {x : Except ε Unit} {f : Unit → Except ε β} {e : ε} :
    (x >>= f) = .error e ↔ x = .error e ∨ x = .ok () ∧ f () = .error e := by
  cases x with
  | error e => simp [bind, Except.bind]
  | ok a => simp [bind, Except.bind]

/-- An error of the entries is that of one of them. -/
theorem checkEntries_error {items : Items} {entries : List (String × Tree)} {e : ValidationError}
    (h : checkEntries r items place entries = .error e) : ∃ entry ∈ entries,
      e = ⟨place.render, .unexpectedItem entry.1⟩ ∨ ∃ item, items.find? entry.1 = some item ∧
        check r (r.resolve item.typeName) (place.key entry.1) entry.2 = .error e := by
  induction entries with
  | nil => cases h
  | cons entry rest ih =>
    obtain ⟨key, value⟩ := entry
    rw [checkEntries] at h
    split at h
    next =>
      cases h
      exact ⟨(key, value), List.mem_cons_self, .inl rfl⟩
    next item hf =>
      rcases seq_error_iff.mp h with h | ⟨-, h⟩
      · exact ⟨(key, value), List.mem_cons_self, .inr ⟨item, hf, h⟩⟩
      · obtain ⟨other, hm, ho⟩ := ih h
        exact ⟨other, List.mem_cons_of_mem _ hm, ho⟩

/-- An error of the tagged values is that of one of them. -/
theorem checkTagged_error {type : ListType} {position : Nat} {tagged : List (String × Tree)}
    {e : ValidationError} (h : checkTagged r type place position tagged = .error e) :
    ∃ entry ∈ tagged, e = ⟨place.render, .unexpectedType entry.1⟩ ∨
      type.allows entry.1 = true ∧
        check r (r.resolve entry.1) (place.index position) entry.2 = .error e := by
  induction tagged with
  | nil => cases h
  | cons entry rest ih =>
    obtain ⟨tag, value⟩ := entry
    rw [checkTagged] at h
    split at h
    next ha =>
      rcases seq_error_iff.mp h with h | ⟨-, h⟩
      · exact ⟨(tag, value), List.mem_cons_self, .inr ⟨ha, h⟩⟩
      · obtain ⟨other, hm, ho⟩ := ih h
        exact ⟨other, List.mem_cons_of_mem _ hm, ho⟩
    next =>
      cases h
      exact ⟨(tag, value), List.mem_cons_self, .inl rfl⟩

theorem checkMax_error {type : ListType} {count : Nat} {e : ValidationError}
    (h : checkMax type count place = .error e) :
    ∃ max, e = ⟨place.render, .tooManyItems max⟩ := by
  rw [checkMax] at h
  split at h
  next max _ =>
    split at h
    next =>
      cases h
      exact ⟨max, rfl⟩
    next => cases h
  next => cases h

theorem checkMin_error {type : ListType} {count : Nat} {e : ValidationError}
    (h : checkMin type count place = .error e) :
    ∃ min, e = ⟨place.render, .tooFewItems min⟩ := by
  rw [checkMin] at h
  split at h
  next min _ =>
    split at h
    next =>
      cases h
      exact ⟨min, rfl⟩
    next => cases h
  next => cases h

theorem checkElements_error {type : ListType} {position : Nat} {elements : List Tree}
    {e : ValidationError} (h : checkElements r type place position elements = .error e) :
    (∃ max, e = ⟨place.render, .tooManyItems max⟩) ∨
      ∃ i element, elements[i]? = some element ∧
        checkElement r type place (position + i) element = .error e := by
  induction elements generalizing position with
  | nil => cases h
  | cons element rest ih =>
    rw [checkElements, seq_error_iff, seq_error_iff] at h
    rcases h with h | ⟨-, h | ⟨-, h⟩⟩
    · exact .inr ⟨0, element, rfl, h⟩
    · exact .inl (checkMax_error h)
    · rcases ih h with hmax | ⟨i, other, hi, ho⟩
      · exact .inl hmax
      · refine .inr ⟨i + 1, other, hi, ?_⟩
        rw [show position + (i + 1) = position + 1 + i by omega]
        exact ho

theorem checkAbsent_error_path {d : Descriptor} {e : ValidationError}
    (h : checkAbsent d place = .error e) : e.path = place.render := by
  cases d with
  | primitive kind => cases h; rfl
  | incomplete => cases h; rfl
  | map items =>
    rw [checkAbsent] at h
    split at h
    next => cases h
    next => cases h; rfl
  | list type =>
    rw [checkAbsent] at h
    split at h
    next =>
      split at h
      next => cases h; rfl
      next => cases h
    next => cases h

/-- An error of a value is at the value or at an element of it, or it comes from a part
that is checked one step further in. -/
theorem check_error_cases {d : Descriptor} {value : Tree} {e : ValidationError}
    (h : check r d place value = .error e) :
    e.path = place.render ∨ (∃ i, e.path = (place.index i).render) ∨
      ∃ part ∈ value.parts, ∃ name step,
        check r (r.resolve name) (place ++ [step]) part = .error e := by
  cases value with
  | null =>
    rw [check] at h
    exact .inl (checkAbsent_error_path h)
  | map entries =>
    cases d with
    | map items =>
      rw [check, seq_error_iff] at h
      rcases h with h | ⟨-, h⟩
      · obtain ⟨entry, hm, rfl | ⟨item, -, hc⟩⟩ := checkEntries_error h
        · exact .inl rfl
        · exact .inr (.inr ⟨entry.2, Tree.entry_mem_parts hm, item.typeName, .key entry.1, hc⟩)
      · rw [checkRequired] at h
        split at h
        next => cases h; exact .inl rfl
        next => cases h
    | _ => cases h; exact .inl rfl
  | list elements =>
    cases d with
    | list type =>
      rw [check, seq_error_iff] at h
      rcases h with h | ⟨-, h⟩
      · rcases checkElements_error h with ⟨max, rfl⟩ | ⟨i, element, hi, he⟩
        · exact .inl rfl
        · have hin : element ∈ elements := List.mem_of_getElem? hi
          rw [checkElement.eq_def] at he
          split at he
          next tagged =>
            obtain ⟨entry, hm, rfl | ⟨-, hc⟩⟩ := checkTagged_error he
            · exact .inl rfl
            · exact .inr (.inr ⟨entry.2, Tree.tagged_mem_parts hin hm, entry.1, _, hc⟩)
          next => cases he; exact .inr (.inl ⟨_, rfl⟩)
      · obtain ⟨min, rfl⟩ := checkMin_error h
        exact .inl rfl
    | _ => cases h; exact .inl rfl
  | _ =>
    cases d with
    | primitive kind =>
      rw [check.eq_def] at h
      dsimp only at h
      split at h
      next => cases h
      next => cases h; exact .inl rfl
    | _ => cases h; exact .inl rfl

/-- An error of a value is at the value or inside it. -/
theorem check_error_path {d : Descriptor} {value : Tree} {e : ValidationError}
    (h : check r d place value = .error e) :
    ∃ route, e.path = Location.render (place ++ route) := by
  induction value using Tree.part_induction generalizing d place with
  | step value ih =>
    rcases check_error_cases h with hp | ⟨i, hp⟩ | ⟨part, hm, name, step, hc⟩
    · exact ⟨[], by rw [hp, List.append_nil]⟩
    · exact ⟨[.index i], hp⟩
    · obtain ⟨route, hp⟩ := ih part hm hc
      exact ⟨step :: route, by rw [hp, List.append_assoc, List.singleton_append]⟩

/-! ## Acceptance -/

end Validation

open Validation

/-- The descriptor accepts the value, wherever it stands. -/
def Accepts (r : Registry) (d : Descriptor) (value : Tree) : Prop :=
  ∀ place, check r d place value = .ok ()

/-- Whether a value passes does not depend on where it stands. -/
theorem check_ok_iff {r : Registry} {d : Descriptor} {value : Tree} (place : Location) :
    check r d place value = .ok () ↔ Accepts r d value :=
  ⟨fun h _ => check_ok_anywhere h, fun h => h place⟩

section

variable {r : Registry} {value : Tree}

theorem accepts_primitive_iff {kind : PrimitiveKind} :
    Accepts r (.primitive kind) value ↔ kind.accepts value = true := by
  rw [← check_ok_iff .root, check_primitive_ok_iff]

theorem accepts_map_iff {items : Items} (hd : (items.map Item.name).Nodup) :
    Accepts r (.map items) value ↔
      (value = .null ∧ ∀ item ∈ items, item.required = false) ∨
      ∃ entries, value = .map entries ∧
        (∀ entry ∈ entries, ∃ item ∈ items, item.name = entry.1 ∧
          Accepts r (r.resolve item.typeName) entry.2) ∧
        ∀ item ∈ items, item.required = true → item.name ∈ Entries.names entries := by
  rw [← check_ok_iff .root]
  cases value with
  | null => simp [check, checkAbsent_ok_iff, Items.required_eq_nil_iff]
  | map entries =>
    rw [check_map_ok_iff, Items.firstMissing?_eq_none_iff hd]
    simp [check_ok_iff, Items.find?_eq_some_iff hd, and_assoc]
  | _ => simp [check]

theorem accepts_list_iff {type : ListType} :
    Accepts r (.list type) value ↔
      (value = .null ∧ ∀ min, type.min = some min → min = 0) ∨
      ∃ elements, value = .list elements ∧
        (∀ element ∈ elements, ∃ tagged, element = .map tagged ∧ ∀ entry ∈ tagged,
          entry.1 ∈ type.itemTypes ∧ Accepts r (r.resolve entry.1) entry.2) ∧
        (∀ max, type.max = some max → elements.length ≤ max) ∧
        ∀ min, type.min = some min → min ≤ elements.length := by
  rw [← check_ok_iff .root]
  cases value with
  | null => simp [check, checkAbsent_ok_iff]
  | list elements =>
    have hpart : ∀ {i element}, checkElement r type .root i element = .ok () ↔
        ∃ tagged, element = .map tagged ∧ ∀ entry ∈ tagged,
          entry.1 ∈ type.itemTypes ∧ Accepts r (r.resolve entry.1) entry.2 := by
      simp [checkElement_ok_iff, check_ok_iff, ListType.allows]
    have hparts : (∀ i element, elements[i]? = some element →
        checkElement r type .root i element = .ok ()) ↔ ∀ element ∈ elements,
          ∃ tagged, element = .map tagged ∧ ∀ entry ∈ tagged,
            entry.1 ∈ type.itemTypes ∧ Accepts r (r.resolve entry.1) entry.2 := by
      constructor
      · intro h element hm
        obtain ⟨i, hi⟩ := List.mem_iff_getElem?.mp hm
        exact hpart.mp (h i element hi)
      · intro h i element hi
        exact hpart.mpr (h element (List.mem_of_getElem? hi))
    rw [check_list_ok_iff, hparts]
    simp
  | _ => simp [check]

/-! ### By the value -/

/-- The list type allows every tag of the element, and the tagged values are accepted. -/
def AcceptsElement (r : Registry) (type : ListType) (element : Tree) : Prop :=
  ∃ tagged, element = .map tagged ∧ ∀ entry ∈ tagged,
    entry.1 ∈ type.itemTypes ∧ Accepts r (r.resolve entry.1) entry.2

theorem acceptsElement_map_iff {type : ListType} {tagged : List (String × Tree)} :
    AcceptsElement r type (.map tagged) ↔ ∀ entry ∈ tagged,
      entry.1 ∈ type.itemTypes ∧ Accepts r (r.resolve entry.1) entry.2 := by
  simp [AcceptsElement]

theorem not_acceptsElement_list {type : ListType} {elements : List Tree} :
    ¬ AcceptsElement r type (.list elements) := by
  simp [AcceptsElement]

theorem not_accepts_incomplete : ¬ Accepts r .incomplete value := by
  rw [← check_ok_iff .root]
  cases value <;> simp [check, checkAbsent]

theorem accepts_null_iff {d : Descriptor} :
    Accepts r d .null ↔
      (∃ items : Items, d = .map items ∧ ∀ item ∈ items, item.required = false) ∨
      ∃ type, d = .list type ∧ ∀ min, type.min = some min → min = 0 := by
  rw [← check_ok_iff .root, check, checkAbsent_ok_iff]
  simp only [Items.required_eq_nil_iff]

/-- A mapping is accepted by maps only. The names of the items need not be distinct. -/
theorem accepts_mapping_iff {d : Descriptor} {entries : List (String × Tree)} :
    Accepts r d (.map entries) ↔ ∃ items, d = .map items ∧
      (∀ entry ∈ entries, ∃ item, items.find? entry.1 = some item ∧
        Accepts r (r.resolve item.typeName) entry.2) ∧
      items.firstMissing? (Entries.names entries) = none := by
  rw [← check_ok_iff .root]
  cases d with
  | map items =>
    rw [check_map_ok_iff]
    simp [check_ok_iff]
  | _ => simp [check]

/-- A sequence is accepted by lists only. -/
theorem accepts_sequence_iff {d : Descriptor} {elements : List Tree} :
    Accepts r d (.list elements) ↔ ∃ type, d = .list type ∧
      (∀ element ∈ elements, AcceptsElement r type element) ∧
      (∀ max, type.max = some max → elements.length ≤ max) ∧
      ∀ min, type.min = some min → min ≤ elements.length := by
  cases d with
  | list type => simp [accepts_list_iff, AcceptsElement]
  | _ => simp [← check_ok_iff .root, check]

end

end ComponentSchema
