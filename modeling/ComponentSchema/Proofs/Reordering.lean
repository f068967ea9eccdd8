import ComponentSchema.Proofs.Linking
import Mathlib.Logic.Relation

/-!
# The order of keys in a document

Validation goes through the entries of a map in document order and stops at the first
violation, so which violation is reported depends on the order. Whether there is one does
not: a document is accepted in every order of its keys or in none.
-/

namespace ComponentSchema

open Validation

/-- One map somewhere in the tree gets its entries in another order. -/
inductive Tree.Reorders : Tree → Tree → Prop
  | entries {entries entries' : List (String × Tree)} : entries.Perm entries' →
      Reorders (.map entries) (.map entries')
  | member (before after : List (String × Tree)) {key : String} {value value' : Tree} :
      Reorders value value' →
      Reorders (.map (before ++ (key, value) :: after)) (.map (before ++ (key, value') :: after))
  | element (before after : List Tree) {value value' : Tree} : Reorders value value' →
      Reorders (.list (before ++ value :: after)) (.list (before ++ value' :: after))

/-- The trees differ only in the order of entries, of any number of maps at any depth. -/
abbrev Tree.SameUpToOrder : Tree → Tree → Prop := Relation.ReflTransGen Tree.Reorders

/-- Every type accepts both values or none, and so does every list as its elements. -/
structure SameVerdict (r : Registry) (value value' : Tree) : Prop where
  accepts : ∀ d, Accepts r d value ↔ Accepts r d value'
  asElement : ∀ type, AcceptsElement r type value ↔ AcceptsElement r type value'

section

variable {r : Registry}

theorem Items.firstMissing?_eq_none_congr {items : Items} {keys keys' : List String}
    (h : ∀ key, key ∈ keys ↔ key ∈ keys') :
    items.firstMissing? keys = none ↔ items.firstMissing? keys' = none :=
  ⟨firstMissing?_mono fun key => (h key).mp, firstMissing?_mono fun key => (h key).mpr⟩

/-- The entries of a map are checked one by one, and the required items are looked for
among all keys. -/
theorem SameVerdict.of_perm {entries entries' : List (String × Tree)}
    (h : entries.Perm entries') : SameVerdict r (.map entries) (.map entries') where
  accepts d := by
    have hkeys : ∀ key, key ∈ Entries.names entries ↔ key ∈ Entries.names entries' :=
      fun _ => (h.map Prod.fst).mem_iff
    simp only [accepts_mapping_iff, h.mem_iff, Items.firstMissing?_eq_none_congr hkeys]
  asElement type := by
    simp only [acceptsElement_map_iff, h.mem_iff]

/-- The value of one entry may be replaced by one with the same verdicts. -/
theorem SameVerdict.member {before after : List (String × Tree)} {key : String}
    {value value' : Tree} (h : SameVerdict r value value') :
    SameVerdict r (.map (before ++ (key, value) :: after))
      (.map (before ++ (key, value') :: after)) where
  accepts d := by
    have hkeys : Entries.names (before ++ (key, value) :: after) =
        Entries.names (before ++ (key, value') :: after) := by
      simp [Entries.names]
    simp only [accepts_mapping_iff, List.forall_mem_append, List.forall_mem_cons, h.accepts, hkeys]
  asElement type := by
    simp only [acceptsElement_map_iff, List.forall_mem_append, List.forall_mem_cons, h.accepts]

/-- One element of a list may be replaced by one with the same verdicts. -/
theorem SameVerdict.element {before after : List Tree} {value value' : Tree}
    (h : SameVerdict r value value') :
    SameVerdict r (.list (before ++ value :: after)) (.list (before ++ value' :: after)) where
  accepts d := by
    have hlength : (before ++ value :: after).length = (before ++ value' :: after).length := by
      simp
    simp only [accepts_sequence_iff, List.forall_mem_append, List.forall_mem_cons, h.asElement,
      hlength]
  asElement type := by
    simp only [not_acceptsElement_list]

/-- Reordering one map changes no verdict. The induction is over the way down to the map. -/
theorem Tree.Reorders.sameVerdict {value value' : Tree} (h : Reorders value value') :
    SameVerdict r value value' := by
  induction h with
  | entries hp => exact .of_perm hp
  | member _ _ _ ih => exact ih.member
  | element _ _ _ ih => exact ih.element

theorem Tree.SameUpToOrder.accepts_iff {value value' : Tree} (h : SameUpToOrder value value')
    (d : Descriptor) : Accepts r d value ↔ Accepts r d value' := by
  induction h with
  | refl => exact Iff.rfl
  | tail _ hstep ih => exact ih.trans (hstep.sameVerdict.accepts d)

end

/-- A schema accepts a document in every order of its keys or in none. -/
theorem validate_ok_iff_of_sameUpToOrder (schema : Schema) {document document' : Tree}
    (h : document.SameUpToOrder document') :
    schema.validate document = .ok () ↔ schema.validate document' = .ok () := by
  rw [Schema.validate, Schema.validate, check_ok_iff, check_ok_iff]
  exact h.accepts_iff schema.rootDescriptor

/-- A tree, and a node whose child has two tags. -/
def taggedDocument : Tree :=
  .map [("tree", .null), ("node", .map [("children",
    .list [.map [("node", .map []), ("int", .int 3)]])])]

/-- The same with the keys of the document and of the child in the other order. -/
def retaggedDocument : Tree :=
  .map [("node", .map [("children",
    .list [.map [("int", .int 3), ("node", .map [])]])]), ("tree", .null)]

theorem retaggedDocument_accepted :
    taggedDocument.SameUpToOrder retaggedDocument ∧ treeSchema.validate taggedDocument = .ok () ∧
      treeSchema.validate retaggedDocument = .ok () := by
  have hchild : Tree.Reorders (.map [("node", .map []), ("int", .int 3)])
      (.map [("int", .int 3), ("node", .map [])]) :=
    .entries (.swap _ _ _)
  have hinner : taggedDocument.Reorders (.map [("tree", .null), ("node", .map [("children",
      .list [.map [("int", .int 3), ("node", .map [])]])])]) :=
    .member [("tree", .null)] [] (.member [] [] (.element [] [] hchild))
  have h : taggedDocument.SameUpToOrder retaggedDocument :=
    .tail (.single hinner) (.entries (.swap _ _ _))
  exact ⟨h, rfl, (validate_ok_iff_of_sameUpToOrder treeSchema h).mp rfl⟩

end ComponentSchema
