import ComponentSchema.Proofs.Entries
import ComponentSchema.Registry

/-!
# Laws of the registry

What each operation leaves under each name, and the order in which registries
grow: names that are bound stay bound to the same object, and a name that becomes
bound gets a finished descriptor.
-/

namespace ComponentSchema

@[simp] theorem Descriptor.isIncomplete_iff {d : Descriptor} :
    d.isIncomplete = true ↔ d = .incomplete := by
  cases d <;> simp [Descriptor.isIncomplete]

@[simp] theorem Descriptor.isIncomplete_eq_false_iff {d : Descriptor} :
    d.isIncomplete = false ↔ d ≠ .incomplete := by
  rw [← Bool.not_eq_true, isIncomplete_iff]

namespace Registry

/-- No name is bound twice. -/
def Distinct (r : Registry) : Prop := (Entries.names r.bindings).Nodup

/-- The name is reserved by a registration in progress. -/
def Placeholder (r : Registry) (name : String) : Prop :=
  ∃ object, r.get? name = some object ∧ object.descriptor = .incomplete

/-- The name is bound to a finished descriptor. -/
def Finished (r : Registry) (name : String) : Prop :=
  ∃ object, r.get? name = some object ∧ object.descriptor ≠ .incomplete

theorem contains_iff {r : Registry} {name : String} :
    r.contains name = true ↔ ∃ object, r.get? name = some object :=
  Option.isSome_iff_exists

theorem contains_of_get? {r : Registry} {name : String} {object : DescriptorObject}
    (h : r.get? name = some object) : r.contains name = true :=
  contains_iff.mpr ⟨object, h⟩

theorem not_contains_iff {r : Registry} {name : String} :
    r.contains name = false ↔ r.get? name = none := by
  simp [contains]

theorem Finished.contains {r : Registry} {name : String} (h : r.Finished name) :
    r.contains name = true := by
  obtain ⟨object, ho, -⟩ := h
  exact contains_of_get? ho

theorem Finished.not_placeholder {r : Registry} {name : String} (h : r.Finished name) :
    ¬ r.Placeholder name := by
  intro hx
  obtain ⟨object, ho, hi⟩ := hx
  obtain ⟨other, hg, hf⟩ := h
  rw [ho] at hg
  cases hg
  exact hf hi

theorem Placeholder.not_finished {r : Registry} {name : String} (h : r.Placeholder name) :
    ¬ r.Finished name :=
  fun hf => hf.not_placeholder h

theorem not_finished_of_get? {r : Registry} {name : String} (h : r.get? name = none) :
    ¬ r.Finished name := by
  intro hx
  obtain ⟨object, ho, -⟩ := hx
  rw [h] at ho
  cases ho

/-- A bound name is either finished or reserved. -/
theorem finished_or_placeholder {r : Registry} {name : String} (h : r.contains name = true) :
    r.Finished name ∨ r.Placeholder name := by
  obtain ⟨object, ho⟩ := contains_iff.mp h
  by_cases hi : object.descriptor = .incomplete
  · exact .inr ⟨object, ho, hi⟩
  · exact .inl ⟨object, ho, hi⟩

theorem resolve_of_get? {r : Registry} {name : String} {object : DescriptorObject}
    (h : r.get? name = some object) : r.resolve name = object.descriptor := by
  rw [resolve, h]

theorem isResolved_iff {r : Registry} {name : String} :
    r.isResolved name = true ↔ r.Finished name := by
  rw [isResolved, resolve, Finished]
  cases h : r.get? name with
  | none => simp
  | some object => simp

/-! ## What an operation leaves under a name -/

@[simp] theorem get?_share_self (r : Registry) (name : String) (object : DescriptorObject) :
    (r.share name object).get? name = some object :=
  Entries.get?_put_self _ _ _

theorem get?_share_ne (r : Registry) {name other : String} (object : DescriptorObject)
    (h : other ≠ name) : (r.share name object).get? other = r.get? other :=
  Entries.get?_put_ne _ _ h

@[simp] theorem get?_bind_self (r : Registry) (name : String) (descriptor : Descriptor) :
    (r.bind name descriptor).get? name = some ⟨r.nextId, descriptor⟩ :=
  Entries.get?_put_self _ _ _

theorem get?_bind_ne (r : Registry) {name other : String} (descriptor : Descriptor)
    (h : other ≠ name) : (r.bind name descriptor).get? other = r.get? other :=
  Entries.get?_put_ne _ _ h

@[simp] theorem get?_reserve_self (r : Registry) (name : String) :
    (r.reserve name).get? name = some ⟨r.nextId, .incomplete⟩ :=
  r.get?_bind_self name .incomplete

theorem get?_reserve_ne (r : Registry) {name other : String} (h : other ≠ name) :
    (r.reserve name).get? other = r.get? other :=
  r.get?_bind_ne .incomplete h

theorem release_condition {r : Registry} {name : String} :
    (r.contains name && (r.resolve name).isIncomplete) = true ↔ r.Placeholder name := by
  rw [Bool.and_eq_true, Descriptor.isIncomplete_iff, contains_iff]
  constructor
  · intro hx
    obtain ⟨⟨object, ho⟩, hr⟩ := hx
    exact ⟨object, ho, by rw [← hr, resolve_of_get? ho]⟩
  · intro hx
    obtain ⟨object, ho, hi⟩ := hx
    exact ⟨⟨object, ho⟩, by rw [resolve_of_get? ho, hi]⟩

theorem release_of_not_placeholder {r : Registry} {name : String} (h : ¬ r.Placeholder name) :
    r.release name = r := by
  rw [release, if_neg (mt release_condition.mp h)]

theorem get?_release_self {r : Registry} {name : String} (hd : r.Distinct)
    (h : r.Placeholder name) : (r.release name).get? name = none := by
  rw [release, if_pos (release_condition.mpr h)]
  exact Entries.get?_erase_self hd name

theorem get?_release_ne {r : Registry} {name other : String} (h : other ≠ name) :
    (r.release name).get? other = r.get? other := by
  rw [release]
  split
  · exact Entries.get?_erase_ne _ h
  · rfl

@[simp] theorem nextId_release (r : Registry) (name : String) :
    (r.release name).nextId = r.nextId := by
  rw [release]
  split <;> rfl

theorem Distinct.share {r : Registry} (h : r.Distinct) (name : String)
    (object : DescriptorObject) : (r.share name object).Distinct :=
  Entries.nodup_names_put h name object

theorem Distinct.bind {r : Registry} (h : r.Distinct) (name : String)
    (descriptor : Descriptor) : (r.bind name descriptor).Distinct :=
  Entries.nodup_names_put h name _

theorem Distinct.release {r : Registry} (h : r.Distinct) (name : String) :
    (r.release name).Distinct := by
  rw [Registry.release]
  split
  · exact Entries.nodup_names_erase h name
  · exact h

/-! ## The registry of the primitive kinds -/

theorem primitives_distinct : primitives.Distinct := by
  rw [Distinct]
  decide

theorem get?_primitives_kind (kind : PrimitiveKind) :
    ∃ object, primitives.get? kind.name = some object ∧ object.descriptor = .primitive kind := by
  cases kind
  · exact ⟨⟨0, .primitive .bool⟩, rfl, rfl⟩
  · exact ⟨⟨1, .primitive .string⟩, rfl, rfl⟩
  · exact ⟨⟨2, .primitive .int⟩, rfl, rfl⟩
  · exact ⟨⟨3, .primitive .float⟩, rfl, rfl⟩

/-- Nothing but the kinds is bound at the start, each to an object of its own. -/
theorem get?_primitives {name : String} {object : DescriptorObject}
    (h : primitives.get? name = some object) : ∃ kind : PrimitiveKind, name = kind.name ∧
      object = ⟨PrimitiveKind.all.idxOf kind, .primitive kind⟩ := by
  have hm := Entries.mem_of_get? h
  simp only [primitives, List.mem_cons, List.not_mem_nil, or_false, Prod.mk.injEq] at hm
  rcases hm with ⟨rfl, rfl⟩ | ⟨rfl, rfl⟩ | ⟨rfl, rfl⟩ | ⟨rfl, rfl⟩
  · exact ⟨.bool, rfl, rfl⟩
  · exact ⟨.string, rfl, rfl⟩
  · exact ⟨.int, rfl, rfl⟩
  · exact ⟨.float, rfl, rfl⟩

/-! ## Growth -/

/-- `s` keeps what `r` binds, placeholders included, and adds only finished
descriptors. -/
structure Extends (r s : Registry) : Prop where
  kept : ∀ {name object}, r.get? name = some object → s.get? name = some object
  added : ∀ {name object}, s.get? name = some object → r.get? name = none →
    object.descriptor ≠ .incomplete

theorem Extends.refl (r : Registry) : r.Extends r where
  kept h := h
  added h hn := by rw [h] at hn; cases hn

theorem Extends.trans {r s t : Registry} (h : r.Extends s) (h' : s.Extends t) :
    r.Extends t where
  kept hg := h'.kept (h.kept hg)
  added {name object} hg hn := by
    cases hs : s.get? name with
    | none => exact h'.added hg hs
    | some other =>
      -- added by the first step and kept by the second
      have ho := h'.kept hs
      rw [hg] at ho
      cases ho
      exact h.added hs hn

theorem Extends.contains {r s : Registry} (h : r.Extends s) {name : String}
    (hc : r.contains name = true) : s.contains name = true := by
  obtain ⟨object, ho⟩ := contains_iff.mp hc
  exact contains_of_get? (h.kept ho)

theorem Extends.finished {r s : Registry} (h : r.Extends s) {name : String}
    (hf : r.Finished name) : s.Finished name := by
  obtain ⟨object, ho, hi⟩ := hf
  exact ⟨object, h.kept ho, hi⟩

/-- The placeholders of the two registries are the same. -/
theorem Extends.placeholder_iff {r s : Registry} (h : r.Extends s) {name : String} :
    s.Placeholder name ↔ r.Placeholder name := by
  constructor
  · intro hx
    obtain ⟨object, ho, hi⟩ := hx
    cases hr : r.get? name with
    | none => exact absurd hi (h.added ho hr)
    | some other =>
      have hs := h.kept hr
      rw [ho] at hs
      cases hs
      exact ⟨object, hr, hi⟩
  · intro hx
    obtain ⟨object, ho, hi⟩ := hx
    exact ⟨object, h.kept ho, hi⟩

/-- A reservation ends by its release. The step in between may have bound the
reserved name to a finished descriptor, or left the placeholder; elsewhere it only
extends. -/
theorem Extends.of_reserved {r m s : Registry} {name : String} (h : (r.reserve name).Extends m)
    (hn : r.get? name = none) (hd : s.Distinct)
    (hs : ∀ other, other ≠ name → s.get? other = m.get? other) : r.Extends (s.release name) where
  kept {other object} ho := by
    have hne : other ≠ name := by
      intro he
      rw [he, hn] at ho
      cases ho
    rw [get?_release_ne hne, hs other hne]
    exact h.kept (by rw [get?_reserve_ne r hne, ho])
  added {other object} ho hr := by
    by_cases hne : other = name
    · subst hne
      by_cases hp : s.Placeholder other
      · rw [get?_release_self hd hp] at ho
        cases ho
      · rw [release_of_not_placeholder hp] at ho
        exact fun hi => hp ⟨object, ho, hi⟩
    · rw [get?_release_ne hne, hs other hne] at ho
      exact h.added ho (by rw [get?_reserve_ne r hne, hr])

/-- An unbound name may be bound to a finished descriptor. -/
theorem Extends.share {r : Registry} {name : String} {object : DescriptorObject}
    (hn : r.get? name = none) (hf : object.descriptor ≠ .incomplete) :
    r.Extends (r.share name object) where
  kept {other found} ho := by
    have hne : other ≠ name := by
      intro he
      rw [he, hn] at ho
      cases ho
    rw [get?_share_ne r object hne, ho]
  added {other found} ho hr := by
    by_cases hne : other = name
    · subst hne
      rw [get?_share_self] at ho
      cases ho
      exact hf
    · rw [get?_share_ne r object hne, hr] at ho
      cases ho

/-- Names are bound once, and each kind is bound to its own descriptor. -/
structure Grounded (r : Registry) : Prop where
  distinct : r.Distinct
  kinds : ∀ kind : PrimitiveKind, ∃ object, r.get? kind.name = some object ∧
    object.descriptor = .primitive kind

theorem Grounded.primitives : Registry.primitives.Grounded :=
  ⟨primitives_distinct, get?_primitives_kind⟩

theorem Grounded.contains_kind {r : Registry} (h : r.Grounded) (kind : PrimitiveKind) :
    r.contains kind.name = true := by
  obtain ⟨object, ho, -⟩ := h.kinds kind
  exact contains_of_get? ho

theorem Grounded.extend {r s : Registry} (h : r.Grounded) (he : r.Extends s)
    (hd : s.Distinct) : s.Grounded := by
  refine ⟨hd, fun kind => ?_⟩
  obtain ⟨object, ho, hk⟩ := h.kinds kind
  exact ⟨object, he.kept ho, hk⟩

theorem Grounded.finished_kind {r : Registry} (h : r.Grounded) (kind : PrimitiveKind) :
    r.Finished kind.name := by
  obtain ⟨object, ho, hk⟩ := h.kinds kind
  exact ⟨object, ho, by simp [hk]⟩

/-! ## A change of one name -/

section

variable {r s : Registry} {name : String}

/-- The kinds are finished, so a name that is not may change. -/
theorem Grounded.update (h : r.Grounded) (hn : ¬ r.Finished name) (hd : s.Distinct)
    (hs : ∀ other, other ≠ name → s.get? other = r.get? other) : s.Grounded := by
  refine ⟨hd, fun kind => ?_⟩
  obtain ⟨object, ho, hk⟩ := h.kinds kind
  have hne : kind.name ≠ name := by
    intro heq
    exact hn (heq ▸ h.finished_kind kind)
  exact ⟨object, by rw [hs _ hne, ho], hk⟩

theorem Grounded.reserve (h : r.Grounded) (hn : r.get? name = none) : (r.reserve name).Grounded :=
  h.update (not_finished_of_get? hn) (h.distinct.bind name .incomplete)
    fun _ hne => r.get?_reserve_ne hne

/-- The names that are finished after the change are those that were, and perhaps the one
that changes. -/
theorem finished_update_iff (hn : ¬ r.Finished name)
    (hs : ∀ other, other ≠ name → s.get? other = r.get? other) {other : String} :
    s.Finished other ↔ r.Finished other ∨ other = name ∧ s.Finished name := by
  by_cases hne : other = name
  · subst hne
    simp [hn]
  · simp [Finished, hs other hne, hne]

end

end Registry

end ComponentSchema
