import ComponentSchema.Proofs.Validation
import Mathlib.Data.List.Forall2

/-!
# Relaxing a schema

A descriptor is relaxed by making items optional, adding optional items, allowing more types
and moving bounds apart. If every finished type of a registry is relaxed in another one, a
value that is accepted stays accepted: required items, absent values and bounds all move in
the same direction, at every depth.
-/

namespace ComponentSchema

open Validation

/-! ## Relaxations -/

/-- The relaxed item has the same name and type, and it is required only if the item is. -/
structure Item.RelaxesTo (item relaxed : Item) : Prop where
  name : relaxed.name = item.name
  typeName : relaxed.typeName = item.typeName
  required : relaxed.required = true → item.required = true

/-- The items of one name in order. -/
def Items.withName (items : Items) (name : String) : Items :=
  items.filter fun item => item.name = name

/-- Under each name stand the old items, relaxed, or only new ones, which are optional. -/
def Items.RelaxesTo (items relaxed : Items) : Prop :=
  ∀ name, List.Forall₂ Item.RelaxesTo (items.withName name) (relaxed.withName name) ∨
    items.declares name = false ∧ ∀ item ∈ relaxed.withName name, item.required = false

/-- The relaxed list allows the same types and maybe more, and each of its bounds is absent
or no tighter. To have no minimum is to have zero. -/
structure ListType.RelaxesTo (type relaxed : ListType) : Prop where
  itemTypes : ∀ name ∈ type.itemTypes, name ∈ relaxed.itemTypes
  min : ∀ low, relaxed.min = some low → low ≤ type.min.getD 0
  max : ∀ high, relaxed.max = some high → ∃ old, type.max = some old ∧ old ≤ high

/-- A finished descriptor and a relaxation of it. -/
inductive Descriptor.RelaxesTo : Descriptor → Descriptor → Prop
  | primitive (kind : PrimitiveKind) : RelaxesTo (.primitive kind) (.primitive kind)
  | map {items relaxed : Items} : items.RelaxesTo relaxed → RelaxesTo (.map items) (.map relaxed)
  | list {type relaxed : ListType} : type.RelaxesTo relaxed →
      RelaxesTo (.list type) (.list relaxed)

/-- Every name with a finished descriptor is bound to a relaxation of it. -/
def Registry.RelaxesTo (r relaxed : Registry) : Prop :=
  ∀ name object, r.get? name = some object → object.descriptor ≠ .incomplete →
    ∃ other, relaxed.get? name = some other ∧ object.descriptor.RelaxesTo other.descriptor

/-! ## Items of one name -/

namespace Items

variable {items relaxed : Items} {item : Item} {name : String} {keys : List String}

theorem withName_cons_self (item : Item) (rest : Items) :
    withName (item :: rest) item.name = item :: withName rest item.name := by
  simp [withName]

theorem withName_cons_ne (rest : Items) (h : item.name ≠ name) :
    withName (item :: rest) name = withName rest name := by
  simp [withName, h]

theorem mem_withName : item ∈ items.withName name ↔ item ∈ items ∧ item.name = name := by
  simp [withName]

theorem declares_withName : (items.withName name).declares name = items.declares name := by
  simp [declares, withName, List.any_filter]

/-- A key stands for the last item of its name, so only the items of the name matter. -/
theorem find?_withName : (items.withName name).find? name = items.find? name := by
  induction items with
  | nil => rfl
  | cons item rest ih =>
    by_cases hn : item.name = name
    · subst hn
      rw [withName_cons_self, find?, find?, ih]
    · rw [withName_cons_ne rest hn, ih, find?]
      cases find? rest name <;> simp [hn]

/-- Whether an item is missing depends on the items of its name only. -/
theorem firstMissing?_eq_none_iff_withName :
    items.firstMissing? keys = none ↔ ∀ name, (items.withName name).firstMissing? keys = none := by
  induction items with
  | nil => simp [withName, firstMissing?]
  | cons item rest ih =>
    have hself : (withName (item :: rest) item.name).firstMissing? keys = none ↔
        (item.required = true → item.name ∈ keys ∧ declares rest item.name = false) ∧
          (withName rest item.name).firstMissing? keys = none := by
      rw [withName_cons_self, firstMissing?_cons_eq_none_iff, declares_withName]
    rw [firstMissing?_cons_eq_none_iff, ih]
    constructor
    · rintro ⟨hitem, hrest⟩ name
      by_cases hn : item.name = name
      · subst hn
        exact hself.mpr ⟨hitem, hrest item.name⟩
      · rw [withName_cons_ne rest hn]
        exact hrest name
    · intro h
      refine ⟨(hself.mp (h item.name)).1, fun name => ?_⟩
      by_cases hn : item.name = name
      · subst hn
        exact (hself.mp (h item.name)).2
      · rw [← withName_cons_ne rest hn]
        exact h name

/-! ## Relaxed items -/

theorem names_of_forall₂ (h : List.Forall₂ Item.RelaxesTo items relaxed) :
    relaxed.map Item.name = items.map Item.name := by
  induction h with
  | nil => rfl
  | cons hitem _ ih => rw [List.map_cons, List.map_cons, hitem.name, ih]

/-- Relaxing each item changes no lookup but for what is relaxed. -/
theorem find?_of_forall₂ (h : List.Forall₂ Item.RelaxesTo items relaxed) :
    Option.Rel Item.RelaxesTo (items.find? name) (relaxed.find? name) := by
  induction h with
  | nil => exact .none
  | @cons item other rest others hitem _ ih =>
    rw [find?, find?, hitem.name]
    generalize find? rest name = found at ih ⊢
    generalize find? others name = found' at ih ⊢
    cases ih with
    | some hlater => exact .some hlater
    | none =>
      by_cases hn : item.name = name
      · simpa [hn] using Option.Rel.some hitem
      · simp [hn]

/-- Relaxing each item leaves no more of them missing. -/
theorem firstMissing?_of_forall₂ (h : List.Forall₂ Item.RelaxesTo items relaxed)
    (hm : items.firstMissing? keys = none) : relaxed.firstMissing? keys = none := by
  induction h with
  | nil => rfl
  | @cons item other rest others hitem hrest ih =>
    have hlast : declares others item.name = declares rest item.name := by
      rw [Bool.eq_iff_iff, declares_iff, declares_iff, names_of_forall₂ hrest]
    rw [firstMissing?_cons_eq_none_iff] at hm ⊢
    rw [hitem.name, hlast]
    exact ⟨fun hq => hm.1 (hitem.required hq), ih hm.2⟩

theorem firstMissing?_of_optional (h : ∀ item ∈ items, item.required = false) :
    items.firstMissing? keys = none := by
  induction items with
  | nil => rfl
  | cons item rest ih =>
    obtain ⟨hitem, hrest⟩ := List.forall_mem_cons.mp h
    rw [firstMissing?_cons_eq_none_iff]
    exact ⟨fun hq => by simp [hitem] at hq, ih hrest⟩

theorem RelaxesTo.find? (h : items.RelaxesTo relaxed) (hf : items.find? name = some item) :
    ∃ other, relaxed.find? name = some other ∧ item.RelaxesTo other := by
  rcases h name with hold | ⟨hnew, -⟩
  · have hrel : Option.Rel Item.RelaxesTo ((items.withName name).find? name)
        ((relaxed.withName name).find? name) := find?_of_forall₂ hold
    rw [find?_withName, find?_withName, hf] at hrel
    cases ho : relaxed.find? name with
    | none => rw [ho] at hrel; cases hrel
    | some other =>
      rw [ho] at hrel
      cases hrel with
      | some hother => exact ⟨other, rfl, hother⟩
  · obtain ⟨hm, hn⟩ := find?_mem hf
    rw [← Bool.not_eq_true, declares_iff] at hnew
    exact absurd (List.mem_map.mpr ⟨item, hm, hn⟩) hnew

theorem RelaxesTo.firstMissing? (h : items.RelaxesTo relaxed)
    (hm : items.firstMissing? keys = none) : relaxed.firstMissing? keys = none := by
  rw [firstMissing?_eq_none_iff_withName] at hm ⊢
  intro name
  rcases h name with hold | ⟨-, hnew⟩
  · exact firstMissing?_of_forall₂ hold (hm name)
  · exact firstMissing?_of_optional hnew

theorem optional_of_forall₂ (h : List.Forall₂ Item.RelaxesTo items relaxed)
    (ho : ∀ item ∈ items, item.required = false) : ∀ other ∈ relaxed, other.required = false := by
  induction h with
  | nil => simp
  | @cons item other rest others hitem _ ih =>
    obtain ⟨hfirst, hrest⟩ := List.forall_mem_cons.mp ho
    refine List.forall_mem_cons.mpr ⟨?_, ih hrest⟩
    rw [← Bool.not_eq_true] at hfirst ⊢
    exact mt hitem.required hfirst

theorem RelaxesTo.optional (h : items.RelaxesTo relaxed)
    (ho : ∀ item ∈ items, item.required = false) :
    ∀ other ∈ relaxed, other.required = false := by
  intro other hm
  have hin : other ∈ relaxed.withName other.name := mem_withName.mpr ⟨hm, rfl⟩
  rcases h other.name with hold | ⟨-, hnew⟩
  · exact optional_of_forall₂ hold (fun item hi => ho item (mem_withName.mp hi).1) other hin
  · exact hnew other hin

theorem withName_of_mem (hd : (items.map Item.name).Nodup) (hm : item ∈ items) :
    items.withName item.name = [item] := by
  induction items with
  | nil => cases hm
  | cons first rest ih =>
    obtain ⟨hfirst, hrest⟩ := List.nodup_cons.mp hd
    rcases List.mem_cons.mp hm with rfl | hlater
    · rw [withName_cons_self]
      have hnone : withName rest item.name = [] := by
        rw [List.eq_nil_iff_forall_not_mem]
        intro other ho
        obtain ⟨hin, hn⟩ := mem_withName.mp ho
        exact hfirst (List.mem_map.mpr ⟨other, hin, hn⟩)
      rw [hnone]
    · have hne : first.name ≠ item.name := fun he =>
        hfirst (List.mem_map.mpr ⟨item, hlater, he.symm⟩)
      rw [withName_cons_ne rest hne]
      exact ih hrest hlater

/-- Where names are distinct, every item is there in relaxed form, and the new items are
optional. -/
theorem relaxesTo_iff_of_distinct (hd : (items.map Item.name).Nodup)
    (hd' : (relaxed.map Item.name).Nodup) :
    items.RelaxesTo relaxed ↔
      (∀ item ∈ items, ∃ other ∈ relaxed, item.RelaxesTo other) ∧
      ∀ other ∈ relaxed, items.declares other.name = false → other.required = false := by
  constructor
  · intro h
    constructor
    · intro item hm
      rcases h item.name with hold | ⟨hnew, -⟩
      · rw [withName_of_mem hd hm] at hold
        obtain ⟨other, _, hrel, -, hother⟩ := List.forall₂_cons_left_iff.mp hold
        have hin : other ∈ relaxed.withName item.name := by simp [hother]
        exact ⟨other, (mem_withName.mp hin).1, hrel⟩
      · rw [← Bool.not_eq_true, declares_iff] at hnew
        exact absurd (List.mem_map_of_mem hm) hnew
    · intro other hm hnew
      rcases h other.name with hold | ⟨-, hoptional⟩
      · rw [withName_of_mem hd' hm] at hold
        obtain ⟨item, _, -, -, hitem⟩ := List.forall₂_cons_right_iff.mp hold
        have hin : item ∈ items.withName other.name := by simp [hitem]
        obtain ⟨hi, hn⟩ := mem_withName.mp hin
        rw [← Bool.not_eq_true, declares_iff] at hnew
        exact absurd (List.mem_map.mpr ⟨item, hi, hn⟩) hnew
      · exact hoptional other (mem_withName.mpr ⟨hm, rfl⟩)
  · rintro ⟨hold, hnew⟩ name
    by_cases hn : items.declares name = true
    · left
      obtain ⟨item, hm, rfl⟩ := List.mem_map.mp (declares_iff.mp hn)
      obtain ⟨other, ho, hrel⟩ := hold item hm
      have hother : relaxed.withName item.name = [other] := by
        rw [← hrel.name]
        exact withName_of_mem hd' ho
      rw [withName_of_mem hd hm, hother]
      exact .cons hrel .nil
    · right
      rw [Bool.not_eq_true] at hn
      refine ⟨hn, fun other ho => ?_⟩
      obtain ⟨hm, rfl⟩ := mem_withName.mp ho
      exact hnew other hm hn

end Items

/-! ## Accepted values -/

section

variable {r relaxed : Registry}

theorem finished_of_accepts {name : String} {value : Tree}
    (h : Accepts r (r.resolve name) value) : r.Finished name := by
  rw [← Registry.isResolved_iff, Registry.isResolved]
  cases hd : r.resolve name with
  | incomplete =>
    rw [hd] at h
    exact absurd h not_accepts_incomplete
  | _ => rfl

theorem Registry.RelaxesTo.resolve (hr : r.RelaxesTo relaxed) {name : String}
    (h : r.Finished name) : (r.resolve name).RelaxesTo (relaxed.resolve name) := by
  obtain ⟨object, ho, hd⟩ := h
  obtain ⟨other, hother, hrel⟩ := hr name object ho hd
  rw [resolve_of_get? ho, resolve_of_get? hother]
  exact hrel

/-- Every type that accepts the value in the registry accepts it in the other one. -/
def KeepsAccepting (r relaxed : Registry) (value : Tree) : Prop :=
  ∀ name, Accepts r (r.resolve name) value → Accepts relaxed (relaxed.resolve name) value

variable {value : Tree}

theorem Items.RelaxesTo.accepts {items items' : Items} (h : items.RelaxesTo items')
    (hparts : ∀ part ∈ value.parts, KeepsAccepting r relaxed part)
    (ha : Accepts r (.map items) value) : Accepts relaxed (.map items') value := by
  cases value with
  | null =>
    rw [accepts_null_iff] at ha ⊢
    obtain ⟨_, hd, hoptional⟩ | ⟨_, hd, -⟩ := ha
    · cases hd
      exact .inl ⟨items', rfl, h.optional hoptional⟩
    · cases hd
  | map entries =>
    rw [accepts_mapping_iff] at ha ⊢
    obtain ⟨_, hd, hentries, hmissing⟩ := ha
    cases hd
    refine ⟨items', rfl, fun entry hm => ?_, h.firstMissing? hmissing⟩
    obtain ⟨item, hf, hitem⟩ := hentries entry hm
    obtain ⟨other, ho, hrel⟩ := h.find? hf
    refine ⟨other, ho, ?_⟩
    rw [hrel.typeName]
    exact hparts entry.2 (Tree.entry_mem_parts hm) item.typeName hitem
  | _ => exact absurd (ha .root) (by simp [check])

theorem ListType.RelaxesTo.min_le {type type' : ListType} (h : type.RelaxesTo type') {count : Nat}
    (hmin : ∀ low, type.min = some low → low ≤ count) {low : Nat} (hl : type'.min = some low) :
    low ≤ count := by
  apply Nat.le_trans (h.min low hl)
  cases hm : type.min with
  | none => exact Nat.zero_le count
  | some old => exact hmin old hm

theorem ListType.RelaxesTo.accepts {type type' : ListType} (h : type.RelaxesTo type')
    (hparts : ∀ part ∈ value.parts, KeepsAccepting r relaxed part)
    (ha : Accepts r (.list type) value) : Accepts relaxed (.list type') value := by
  rw [accepts_list_iff] at ha ⊢
  rcases ha with ⟨hv, hmin⟩ | ⟨elements, rfl, helements, hmax, hmin⟩
  · -- an absent list has no elements
    have hnone : ∀ low, type.min = some low → low ≤ 0 := fun low hl => Nat.le_of_eq (hmin low hl)
    exact .inl ⟨hv, fun low hl => Nat.le_zero.mp (h.min_le hnone hl)⟩
  · refine .inr ⟨elements, rfl, fun element hm => ?_, fun high hh => ?_, fun low => h.min_le hmin⟩
    · obtain ⟨tagged, rfl, htagged⟩ := helements element hm
      refine ⟨tagged, rfl, fun entry he => ?_⟩
      obtain ⟨htype, hvalue⟩ := htagged entry he
      exact ⟨h.itemTypes entry.1 htype,
        hparts entry.2 (Tree.tagged_mem_parts hm he) entry.1 hvalue⟩
    · obtain ⟨old, hold, hle⟩ := h.max high hh
      exact Nat.le_trans (hmax old hold) hle

/-- One step down: a relaxed type accepts a value if the named types accept its parts. -/
theorem Descriptor.RelaxesTo.accepts {d d' : Descriptor} (h : d.RelaxesTo d')
    (hparts : ∀ part ∈ value.parts, KeepsAccepting r relaxed part) (ha : Accepts r d value) :
    Accepts relaxed d' value := by
  cases h with
  | primitive kind => exact accepts_primitive_iff.mpr (accepts_primitive_iff.mp ha)
  | map hitems => exact hitems.accepts hparts ha
  | list htype => exact htype.accepts hparts ha

/-- The registries may be cyclic, so the induction is over the value. -/
theorem Registry.RelaxesTo.keepsAccepting (hr : r.RelaxesTo relaxed) (value : Tree) :
    KeepsAccepting r relaxed value := by
  induction value using Tree.part_induction with
  | step value ih =>
    intro name ha
    exact (hr.resolve (finished_of_accepts ha)).accepts ih ha

end

/-- What a descriptor accepts, absence included, its relaxation accepts in a relaxed
registry, wherever the value stands. -/
theorem validate_ok_of_relaxesTo {r relaxed : Registry} (hr : r.RelaxesTo relaxed)
    {d d' : Descriptor} (hd : d.RelaxesTo d') (place place' : Location) (value : Option Tree)
    (h : d.validate r place value = .ok ()) : d'.validate relaxed place' value = .ok () := by
  rw [Descriptor.validate, check_ok_iff] at h ⊢
  exact hd.accepts (fun part _ => hr.keepsAccepting part) h

/-- Nodes with one or two children each, and a name that is only reserved. -/
def strictNodes : Registry where
  bindings := Registry.primitives.bindings ++
    [("node", ⟨4, .map [⟨"children", "node.children", true⟩]⟩),
      ("node.children", ⟨5, .list ⟨["node", "int"], some 1, some 2⟩⟩), ("draft", ⟨6, .incomplete⟩)]
  nextId := 7

/-- Nodes may have a label and any number of children up to five, of one more type. -/
def looseNodes : Registry where
  bindings := Registry.primitives.bindings ++
    [("node.children", ⟨4, .list ⟨["string", "int", "node"], none, some 5⟩⟩),
      ("node", ⟨5, .map [⟨"label", "string", false⟩, ⟨"children", "node.children", false⟩]⟩)]
  nextId := 6

theorem strictNodes_items : Descriptor.RelaxesTo (.map [⟨"children", "node.children", true⟩])
    (.map [⟨"label", "string", false⟩, ⟨"children", "node.children", false⟩]) := by
  apply Descriptor.RelaxesTo.map
  rw [Items.relaxesTo_iff_of_distinct (by decide) (by decide)]
  constructor
  · intro item hm
    obtain rfl := List.mem_singleton.mp hm
    exact ⟨_, .tail _ (.head _), rfl, rfl, by decide⟩
  · decide

theorem strictNodes_relaxesTo : strictNodes.RelaxesTo looseNodes := by
  intro name object ho hf
  have hm : (name, object) ∈ strictNodes.bindings := Entries.mem_of_get? ho
  simp only [strictNodes, Registry.primitives, List.cons_append, List.nil_append, List.mem_cons,
    Prod.mk.injEq, List.not_mem_nil, or_false] at hm
  rcases hm with ⟨rfl, rfl⟩ | ⟨rfl, rfl⟩ | ⟨rfl, rfl⟩ | ⟨rfl, rfl⟩ | ⟨rfl, rfl⟩ | ⟨rfl, rfl⟩ |
    ⟨rfl, rfl⟩
  · exact ⟨_, rfl, .primitive .bool⟩
  · exact ⟨_, rfl, .primitive .string⟩
  · exact ⟨_, rfl, .primitive .int⟩
  · exact ⟨_, rfl, .primitive .float⟩
  · exact ⟨_, rfl, strictNodes_items⟩
  · exact ⟨_, rfl, .list ⟨by decide, by simp, by simp⟩⟩
  · exact absurd rfl hf

/-- A node below a node. -/
def nestedNode : Tree :=
  .map [("children", .list [.map [("node", .map [("children", .list [.map [("int", .int 3)]])])]])]

theorem nestedNode_accepted :
    (strictNodes.resolve "node").validate strictNodes .root (some nestedNode) = .ok () ∧
      (looseNodes.resolve "node").validate looseNodes (Location.root.key "tree")
        (some nestedNode) = .ok () :=
  ⟨rfl, validate_ok_of_relaxesTo strictNodes_relaxesTo strictNodes_items .root _ (some nestedNode)
    rfl⟩

end ComponentSchema
