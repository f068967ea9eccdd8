import ComponentSchema.Proofs.Moves
import ComponentSchema.Proofs.Origin
import Mathlib.Logic.Function.Basic

/-!
# Faithful registries

At every moment of a registration each finished object has one origin, and every
name that is bound to the object stands for that origin. The numbers of the objects
are given out once, so the origin is a function of the number.
-/

namespace ComponentSchema

open Registration Definition

/-! ## Descriptors that follow from a definition -/

theorem ListType.dedup_eq (names seen : List String) :
    ListType.dedup names seen = (names.filter fun name => !seen.contains name).eraseDups := by
  induction names generalizing seen with
  | nil => rfl
  | cons name rest ih =>
    rw [ListType.dedup]
    by_cases hs : seen.contains name
    · rw [if_pos hs, ih, List.filter_cons_of_neg (by simpa using hs)]
    · rw [if_neg hs, ih, List.filter_cons_of_pos (by simpa using hs), List.eraseDups_cons,
        List.filter_filter]
      congr 3
      funext other
      by_cases he : other = name <;> simp [he]

/-- A list type allows its item types in order, later repeats dropped. -/
theorem ListType.of_eq (names : List String) (min max : Option Nat) :
    ListType.of names min max = ⟨names.eraseDups, min, max⟩ := by
  have hall : (names.filter fun name => !([] : List String).contains name) = names := by
    simp
  rw [ListType.of, ListType.dedup_eq, hall]

/-- A name that the types of a definition can have. -/
def Nameable (components : Components) (name : String) : Prop :=
  (∃ kind : PrimitiveKind, name = kind.name) ∨ Claimed components name

/-- The descriptor is the one that the origin asks for, and the definition that it is
read off has a well-formed body. -/
inductive Described (components : Components) : Origin → Descriptor → Prop
  | primitive (kind : PrimitiveKind) : Described components (.primitive kind) (.primitive kind)
  | map {path : List String} {name : String} {d : Tree} : Occurs components path name d →
      form? d = some .map → MapBody d → (∀ m ∈ members d, WellHeaded components m.2) →
      Described components (.component path name d)
        (.map ((members d).map (item (path ++ [name]))))
  | list {path : List String} {name : String} {d : Tree} : Occurs components path name d →
      form? d = some .list → ListBody (Nameable components) d →
      Described components (.component path name d)
        (.list ⟨(elementTypes d).eraseDups, bound? d .min, bound? d .max⟩)

theorem describe_map {path : List String} {name : String} {d : Tree}
    (h : form? d = some .map) :
    describe path name d = .map ((members d).map (item (path ++ [name]))) := by
  rw [describe, h]

theorem describe_list {path : List String} {name : String} {d : Tree}
    (h : form? d = some .list) :
    describe path name d = .list ⟨(elementTypes d).eraseDups, bound? d .min, bound? d .max⟩ := by
  rw [describe, h]

variable {components : Components}

theorem Described.descriptor_eq {origin : Origin} {descriptor : Descriptor}
    (h : Described components origin descriptor) : descriptor = origin.descriptor := by
  cases h with
  | primitive _ => rfl
  | map _ hf _ _ => exact (describe_map hf).symm
  | list _ hf _ => exact (describe_list hf).symm

/-- Only a kind is described by a primitive descriptor. -/
theorem Described.of_primitive {origin : Origin} {kind : PrimitiveKind}
    (h : Described components origin (.primitive kind)) : origin = .primitive kind := by
  cases h
  rfl

theorem Described.of_map {path : List String} {name : String} {d : Tree}
    {descriptor : Descriptor} (h : Described components (.component path name d) descriptor)
    (hf : form? d = some .map) : MapBody d ∧ ∀ m ∈ members d, WellHeaded components m.2 := by
  cases h with
  | map _ _ hbody hheaded => exact ⟨hbody, hheaded⟩
  | list _ hl _ =>
    rw [hf] at hl
    cases hl

theorem Described.of_list {path : List String} {name : String} {d : Tree}
    {descriptor : Descriptor} (h : Described components (.component path name d) descriptor)
    (hf : form? d = some .list) : ListBody (Nameable components) d := by
  cases h with
  | map _ hm _ _ =>
    rw [hf] at hm
    cases hm
  | list _ _ hbody => exact hbody

/-! ## The invariant -/

/-- The name is bound, or it is the name of a top-level reference, which may have
been given up. -/
def Settled (components : Components) (r : Registry) (name : String) : Prop :=
  r.contains name = true ∨ ∃ target, RefersTo components name target

/-- The maps and lists in the body of a map are settled. -/
def MembersSettled (components : Components) (r : Registry) : Origin → Prop
  | .primitive _ => True
  | .component path name d => form? d = some .map → ∀ m ∈ members d, Composite m.2 →
      Settled components r (dottedName (path ++ [name]) m.1)

theorem MembersSettled.mono {r s : Registry} {origin : Origin}
    (h : MembersSettled components r origin)
    (hs : ∀ name, Settled components r name → Settled components s name) :
    MembersSettled components s origin := by
  cases origin with
  | primitive _ => trivial
  | component path name d => exact fun hf m hm hc => hs _ (h hf m hm hc)

theorem Settled.of_get? {r : Registry} {name : String} {object : DescriptorObject}
    (h : r.get? name = some object) : Settled components r name :=
  .inl (Registry.contains_of_get? h)

/-- The finished object under `name` is the one of the origin: the name stands for
the origin, whose key is bound to the same object. -/
structure Belongs (components : Components) (r : Registry) (origin : Origin) (name : String)
    (object : DescriptorObject) : Prop where
  stands : Resolves components name origin
  key : r.get? origin.key = some object
  described : Described components origin object.descriptor
  members : MembersSettled components r origin

/-- The registry `r` holds what the components say: every bound name is a kind or a
component's, and every finished object belongs to one origin, the same for all names
that are bound to it. -/
structure Faithful (components : Components) (own : Nat → Origin) (r : Registry) : Prop where
  grounded : r.Grounded
  named : ∀ {name}, r.contains name = true → Nameable components name
  fresh : ∀ {name object}, r.get? name = some object → object.id < r.nextId
  owned : ∀ {name object}, r.get? name = some object → object.descriptor ≠ .incomplete →
    Belongs components r (own object.id) name object

/-- The origins of the first objects. -/
def Origin.initial : Nat → Origin
  | 0 => .primitive .bool
  | 1 => .primitive .string
  | 2 => .primitive .int
  | _ => .primitive .float

theorem Origin.initial_idxOf (kind : PrimitiveKind) :
    Origin.initial (PrimitiveKind.all.idxOf kind) = .primitive kind := by
  cases kind <;> rfl

theorem Faithful.start (components : Components) :
    Faithful components Origin.initial Registry.primitives where
  grounded := .primitives
  named {name} h := by
    obtain ⟨object, ho⟩ := Registry.contains_iff.mp h
    obtain ⟨kind, rfl, -⟩ := Registry.get?_primitives ho
    exact .inl ⟨kind, rfl⟩
  fresh {name object} h := by
    obtain ⟨kind, -, rfl⟩ := Registry.get?_primitives h
    cases kind <;> decide
  owned {name object} h _ := by
    obtain ⟨kind, rfl, rfl⟩ := Registry.get?_primitives h
    rw [Origin.initial_idxOf]
    exact ⟨.kind kind, h, .primitive kind, trivial⟩

/-! ## What a change of one name leaves -/

section

variable {own : Nat → Origin} {r s : Registry} {name : String}

theorem Settled.update (hs : ∀ other, other ≠ name → s.get? other = r.get? other)
    (hname : Settled components s name) {other : String} (h : Settled components r other) :
    Settled components s other := by
  by_cases hne : other = name
  · rw [hne]
    exact hname
  · refine h.imp_left fun hc => ?_
    obtain ⟨object, hg⟩ := Registry.contains_iff.mp hc
    exact Registry.contains_of_get? (by rw [hs other hne, hg])

theorem Belongs.update (hn : ¬ r.Finished name)
    (hs : ∀ other, other ≠ name → s.get? other = r.get? other)
    (hname : Settled components s name) {origin : Origin} {other : String}
    {object : DescriptorObject} (h : Belongs components r origin other object)
    (hf : object.descriptor ≠ .incomplete) : Belongs components s origin other object := by
  -- the key of the origin is finished, so it is not the name that changes
  have hkey : origin.key ≠ name := by
    intro he
    exact hn ⟨object, he ▸ h.key, hf⟩
  exact ⟨h.stands, by rw [hs _ hkey, h.key], h.described,
    h.members.mono fun _ => Settled.update hs hname⟩

/-- One name changes that had no finished descriptor, and what is new under it
belongs to an origin. -/
theorem Faithful.update {own' : Nat → Origin} (h : Faithful components own r)
    (hn : ¬ r.Finished name) (hd : s.Distinct)
    (hs : ∀ other, other ≠ name → s.get? other = r.get? other)
    (hname : Settled components s name)
    (hown : ∀ id, id < r.nextId → own' id = own id) (hid : r.nextId ≤ s.nextId)
    (hnew : ∀ object, s.get? name = some object →
      Nameable components name ∧ object.id < s.nextId ∧ (object.descriptor ≠ .incomplete →
        Belongs components s (own' object.id) name object)) :
    Faithful components own' s := by
  refine ⟨h.grounded.update hn hd hs, ?_, ?_, ?_⟩
  · intro other hc
    obtain ⟨object, ho⟩ := Registry.contains_iff.mp hc
    by_cases hne : other = name
    · subst hne
      exact (hnew object ho).1
    · rw [hs other hne] at ho
      exact h.named (Registry.contains_of_get? ho)
  · intro other object ho
    by_cases hne : other = name
    · subst hne
      exact (hnew object ho).2.1
    · rw [hs other hne] at ho
      exact Nat.lt_of_lt_of_le (h.fresh ho) hid
  · intro other object ho hf
    by_cases hne : other = name
    · subst hne
      exact (hnew object ho).2.2 hf
    · rw [hs other hne] at ho
      rw [hown _ (h.fresh ho)]
      exact (h.owned ho hf).update hn hs hname hf

end

/-- A body that is built is described by its component. -/
theorem Built.described {own : Nat → Origin} {r : Registry} {path : List String} {name : String}
    {d : Tree} {descriptor : Descriptor} (h : Faithful components own r)
    (ho : Occurs components path name d) (hb : Built components r path name d descriptor) :
    Described components (.component path name d) descriptor := by
  cases hb with
  | map hf hbody hv => exact .map ho hf hbody fun m hm => (hv m hm).headed
  | list hf hbody =>
    rw [ListType.of_eq]
    refine .list ho hf (hbody.mono fun type _ hk => ?_)
    rcases hk with hk | hk
    · exact h.named hk
    · obtain ⟨d', hd'⟩ := Entries.contains_iff_get?.mp hk
      exact .inr (.top hd')

theorem Built.members {r : Registry} {path : List String} {name : String} {d : Tree}
    {descriptor : Descriptor} (h : Built components r path name d descriptor) :
    MembersSettled components r (.component path name d) := by
  intro hf m hm hc
  cases h with
  | map _ _ hv => exact .inl ((hv m hm).bound hc)
  | list hl _ =>
    rw [hf] at hl
    cases hl

theorem Built.composite {r : Registry} {path : List String} {name : String}
    {d : Tree} {descriptor : Descriptor} (h : Built components r path name d descriptor) :
    Composite d := by
  cases h with
  | map hf _ _ => exact .inl hf
  | list hf _ => exact .inr hf

section

variable {own : Nat → Origin} {r : Registry} {name : String}

theorem Faithful.reserve (h : Faithful components own r) (hc : Claimed components name)
    (hn : r.get? name = none) : Faithful components own (r.reserve name) := by
  refine h.update (Registry.not_finished_of_get? hn) (h.grounded.distinct.bind name _)
    (fun other hne => r.get?_reserve_ne hne) (.of_get? (r.get?_reserve_self name))
    (fun _ _ => rfl) (Nat.le_succ _) ?_
  intro object ho
  rw [Registry.get?_reserve_self] at ho
  cases ho
  exact ⟨.inr hc, Nat.lt_succ_self _, fun hf => absurd rfl hf⟩

theorem Faithful.release {target : String} (h : Faithful components own r)
    (hr : RefersTo components name target) (hp : r.Placeholder name) :
    Faithful components own (r.release name) := by
  refine h.update hp.not_finished (h.grounded.distinct.release name)
    (fun other hne => Registry.get?_release_ne hne) (.inr ⟨target, hr⟩) (fun _ _ => rfl)
    (Nat.le_of_eq (Registry.nextId_release _ _).symm) ?_
  intro object ho
  rw [Registry.get?_release_self h.grounded.distinct hp] at ho
  cases ho

/-- A new object gets the next number, and the finished component is its origin. -/
theorem Faithful.bind {path : List String} {d : Tree} {descriptor : Descriptor}
    (h : Faithful components own r) (ho : Occurs components path name d)
    (hp : r.Placeholder (dottedName path name))
    (hb : Built components r path name d descriptor) :
    Faithful components (Function.update own r.nextId (.component path name d))
      (r.bind (dottedName path name) descriptor) := by
  refine h.update hp.not_finished (h.grounded.distinct.bind _ _)
    (fun other hne => r.get?_bind_ne _ hne) (.of_get? (r.get?_bind_self _ _)) ?_
    (Nat.le_succ _) ?_
  · intro id hid
    exact Function.update_of_ne (Nat.ne_of_lt hid) _ _
  · intro object hobject
    rw [Registry.get?_bind_self] at hobject
    cases hobject
    refine ⟨.inr (.of_composite ho hb.composite), Nat.lt_succ_self _, fun _ => ?_⟩
    rw [Function.update_self]
    refine ⟨.component ho hb.composite, r.get?_bind_self _ _, hb.described h ho, ?_⟩
    exact hb.members.mono fun _ => Settled.update (fun other hne => r.get?_bind_ne _ hne)
      (.of_get? (r.get?_bind_self _ _))

/-- A name may share a finished object if it stands for the origin of the object. -/
theorem Faithful.share {target : String} {object : DescriptorObject}
    (h : Faithful components own r) (hc : Claimed components name) (hn : ¬ r.Finished name)
    (ho : r.get? target = some object) (hf : object.descriptor ≠ .incomplete)
    (hr : Resolves components name (own object.id)) :
    Faithful components own (r.share name object) := by
  refine h.update hn (h.grounded.distinct.share name object)
    (fun other hne => r.get?_share_ne object hne) (.of_get? (r.get?_share_self _ _))
    (fun _ _ => rfl) (Nat.le_refl _) ?_
  intro other hother
  rw [Registry.get?_share_self] at hother
  cases hother
  have hold : Belongs components (r.share name object) (own object.id) target object :=
    (h.owned ho hf).update hn (fun other hne => r.get?_share_ne object hne)
      (.of_get? (r.get?_share_self _ _)) hf
  exact ⟨.inr hc, h.fresh ho, fun _ => ⟨hr, hold.key, hold.described, hold.members⟩⟩

end

/-- Every move keeps a registry faithful. -/
theorem Faithful.step {own : Nat → Origin} {p q : Progress}
    (h : Faithful components own p.registry) (hm : Move components p q) :
    ∃ own', Faithful components own' q.registry := by
  cases hm with
  | reserve hc hn => exact ⟨own, h.reserve hc hn⟩
  | release hd hf hp => exact ⟨own, h.release ⟨_, hd, hf⟩ hp⟩
  | finish ho hp hb => exact ⟨_, h.bind ho hp hb⟩
  | @aliasPrimitive name d kind object hd hf hn ho =>
    obtain ⟨other, hother, hk⟩ := h.grounded.kinds kind
    rw [ho] at hother
    cases hother
    have hfin : object.descriptor ≠ .incomplete := by simp [hk]
    have hdesc := (h.owned ho hfin).described
    rw [hk] at hdesc
    refine ⟨own, h.share (.top hd) (Registry.not_finished_of_get? hn) ho hfin ?_⟩
    rw [hdesc.of_primitive]
    exact .primitiveAlias hd hf
  | aliasTarget hd hf hp ho hi =>
    have hr := (h.owned ho hi).stands
    exact ⟨own, h.share (.top hd) hp.not_finished ho hi (.reference hd hf hr)⟩

/-- Whatever is registered from the start, the registry is faithful. -/
theorem Faithful.of_moves {p : Progress} (h : Moves components Progress.start p) :
    ∃ own, Faithful components own p.registry := by
  refine h.preserve (P := fun p => ∃ own, Faithful components own p.registry) ?_
    ⟨_, .start components⟩
  intro p q hm hp
  obtain ⟨own, hf⟩ := hp
  exact hf.step hm

end ComponentSchema
