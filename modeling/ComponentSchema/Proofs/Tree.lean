import ComponentSchema.Proofs.Entries
import ComponentSchema.Tree

/-!
# Laws of trees

The sizes of what stands inside a tree, and the induction over the parts of a
document.
-/

namespace ComponentSchema.Tree

/-- The entries of a map; any other tree has none. -/
def entries : Tree → List (String × Tree)
  | .map entries => entries
  | _ => []

/-- The values inside a value that are checked on their own: those of a map, and
those of the maps in a list. -/
def parts : Tree → List Tree
  | .map entries => entries.map Prod.snd
  | .list elements => (elements.flatMap entries).map Prod.snd
  | _ => []

theorem sizeOf_entry_lt {value : Tree} {entry : String × Tree} (h : entry ∈ value.entries) :
    sizeOf entry.2 < sizeOf value := by
  obtain ⟨key, inner⟩ := entry
  cases value with
  | map entries =>
    have hlt := List.sizeOf_lt_of_mem (show (key, inner) ∈ entries from h)
    simp only [Tree.map.sizeOf_spec, Prod.mk.sizeOf_spec] at *
    omega
  | _ => cases h

theorem sizeOf_element_lt {elements : List Tree} {element : Tree} (h : element ∈ elements) :
    sizeOf element < sizeOf (Tree.list elements) := by
  have hlt := List.sizeOf_lt_of_mem h
  simp only [Tree.list.sizeOf_spec]
  omega

theorem sizeOf_get?_lt {value inner : Tree} {key : String} (h : value.get? key = some inner) :
    sizeOf inner < sizeOf value := by
  cases value with
  | map entries =>
    have hm : (key, inner) ∈ (Tree.map entries).entries :=
      Entries.mem_of_get? (show Entries.get? entries key = some inner from h)
    exact sizeOf_entry_lt hm
  | _ => cases h

theorem sizeOf_part_lt {value part : Tree} (h : part ∈ value.parts) :
    sizeOf part < sizeOf value := by
  cases value with
  | map entries =>
    obtain ⟨entry, hm, rfl⟩ := List.mem_map.mp h
    exact sizeOf_entry_lt (show entry ∈ (Tree.map entries).entries from hm)
  | list elements =>
    obtain ⟨entry, hm, rfl⟩ := List.mem_map.mp h
    obtain ⟨element, he, hin⟩ := List.mem_flatMap.mp hm
    exact Nat.lt_trans (sizeOf_entry_lt hin) (sizeOf_element_lt he)
  | _ => cases h

theorem entry_mem_parts {entries : List (String × Tree)} {entry : String × Tree}
    (h : entry ∈ entries) : entry.2 ∈ (Tree.map entries).parts :=
  List.mem_map_of_mem h

theorem element_mem_parts {elements : List Tree} {element : Tree} {entry : String × Tree}
    (he : element ∈ elements) (h : entry ∈ element.entries) :
    entry.2 ∈ (Tree.list elements).parts :=
  List.mem_map_of_mem (List.mem_flatMap.mpr ⟨element, he, h⟩)

theorem tagged_mem_parts {elements : List Tree} {tagged : List (String × Tree)}
    {entry : String × Tree} (he : .map tagged ∈ elements) (h : entry ∈ tagged) :
    entry.2 ∈ (Tree.list elements).parts :=
  element_mem_parts he h

/-- A property of every value follows from its passing from the parts to the
whole. -/
theorem part_induction {motive : Tree → Prop}
    (step : ∀ value, (∀ part ∈ value.parts, motive part) → motive value) (value : Tree) :
    motive value :=
  step value fun part _ => part_induction step part
termination_by sizeOf value
decreasing_by exact sizeOf_part_lt ‹_›

/-- A tree that a document can be: every integer fits its word, every float is
finite, and no map repeats a key. -/
inductive IsDocument : Tree → Prop
  | null : IsDocument .null
  | bool (value : Bool) : IsDocument (.bool value)
  | int {value : Int} : intFits value = true → IsDocument (.int value)
  | float {value : Binary64} : value.isFinite = true → IsDocument (.float value)
  | string (value : String) : IsDocument (.string value)
  | list {items : List Tree} : (∀ item ∈ items, IsDocument item) → IsDocument (.list items)
  | map {entries : List (String × Tree)} : (Entries.names entries).Nodup →
      (∀ key value, (key, value) ∈ entries → IsDocument value) → IsDocument (.map entries)

@[simp] theorem isDocument_bool (value : Bool) : IsDocument (.bool value) := .bool value

@[simp] theorem isDocument_string (value : String) : IsDocument (.string value) := .string value

@[simp] theorem isDocument_list {items : List Tree} :
    IsDocument (.list items) ↔ ∀ item ∈ items, item.IsDocument := by
  constructor
  · intro h
    cases h with
    | list hs => exact hs
  · exact .list

@[simp] theorem isDocument_map {entries : List (String × Tree)} :
    IsDocument (.map entries) ↔ (Entries.names entries).Nodup ∧
      ∀ key value, (key, value) ∈ entries → value.IsDocument := by
  constructor
  · intro h
    cases h with
    | map hn hs => exact ⟨hn, hs⟩
  · intro h
    exact .map h.1 h.2

theorem IsDocument.get? {value inner : Tree} {key : String} (h : value.IsDocument)
    (hg : value.get? key = some inner) : inner.IsDocument := by
  cases h with
  | map _ hs => exact hs key inner (Entries.mem_of_get? hg)
  | _ => cases hg

theorem IsDocument.entry {value : Tree} {entry : String × Tree} (h : value.IsDocument)
    (hm : entry ∈ value.entries) : entry.2.IsDocument := by
  cases h with
  | map _ hs => exact hs entry.1 entry.2 hm
  | _ => cases hm

theorem IsDocument.int_le {value : Int} (h : IsDocument (.int value)) :
    value ≤ 18446744073709551615 := by
  cases h with
  | int hf =>
    simp only [intFits, decide_eq_true_eq] at hf
    omega

end ComponentSchema.Tree
