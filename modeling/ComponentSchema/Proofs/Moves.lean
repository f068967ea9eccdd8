import ComponentSchema.Proofs.Frame
import Mathlib.Logic.Relation

/-!
# The moves of a registration

A successful registration changes the progress only by moves of five kinds, each
with the facts that hold when it is made. What every move preserves, every
registration preserves.
-/

namespace ComponentSchema

open Registration Definition

/-- The names that the components of a definition are registered under. -/
inductive Claimed (components : Components) : String → Prop
  | top {name : String} {d : Tree} : Entries.get? components name = some d →
      Claimed components name
  | nested {path : List String} {name : String} {d : Tree} : Occurs components path name d →
      path ≠ [] → Composite d → Claimed components (dottedName path name)

/-- The attributes that every component has are well formed, and if the component
is composite, its name is bound. -/
structure Visited (components : Components) (r : Registry) (path : List String) (name : String)
    (d : Tree) : Prop where
  headed : WellHeaded components d
  bound : Composite d → r.contains (dottedName path name) = true

/-- A type name that is bound, or will be when its component has its turn. -/
def Known (components : Components) (r : Registry) (name : String) : Prop :=
  r.contains name = true ∨ Entries.contains components name = true

/-- The descriptor is the one that the body of the component `name` asks for, and
the parts of the body have been visited. -/
inductive Built (components : Components) (r : Registry) (path : List String) (name : String)
    (d : Tree) : Descriptor → Prop
  | map : form? d = some .map → MapBody d →
      (∀ m ∈ members d, Visited components r (path ++ [name]) m.1 m.2) →
      Built components r path name d (.map ((members d).map (item (path ++ [name]))))
  | list : form? d = some .list → ListBody (Known components r) d →
      Built components r path name d
        (.list (.of (elementTypes d) (bound? d .min) (bound? d .max)))

/-- One change of the progress. -/
inductive Move (components : Components) : Progress → Progress → Prop
  /-- The registration of a name begins. -/
  | reserve {p : Progress} {name : String} : Claimed components name →
      p.registry.get? name = none → Move components p (p.update (·.reserve name))
  /-- A reference whose target is not finished gives its name up. -/
  | release {p : Progress} {name target : String} {d : Tree} :
      Entries.get? components name = some d → form? d = some (.reference target) →
      p.registry.Placeholder name → Move components p (p.update (·.release name))
  /-- The body of a map or a list is finished. -/
  | finish {p : Progress} {path : List String} {name : String} {d : Tree}
      {descriptor : Descriptor} : Occurs components path name d →
      p.registry.Placeholder (dottedName path name) →
      Built components p.registry path name d descriptor →
      Move components p ((p.record (.component (dottedName path name) descriptor.kindName)).update
        (·.bind (dottedName path name) descriptor))
  /-- A top-level component of a primitive kind shares the object of the kind. -/
  | aliasPrimitive {p : Progress} {name : String} {d : Tree} {kind : PrimitiveKind}
      {object : DescriptorObject} : Entries.get? components name = some d →
      form? d = some (.primitive kind) → p.registry.get? name = none →
      p.registry.get? kind.name = some object →
      Move components p ((p.record (.primitiveAlias name kind)).update (·.share name object))
  /-- A reference shares the object of its target. -/
  | aliasTarget {p : Progress} {name target : String} {d : Tree} {object : DescriptorObject} :
      Entries.get? components name = some d → form? d = some (.reference target) →
      p.registry.Placeholder name → p.registry.get? target = some object →
      object.descriptor ≠ .incomplete →
      Move components p ((p.record (.alias name target)).update (·.share name object))

/-- Any number of moves. -/
abbrev Moves (components : Components) : Progress → Progress → Prop :=
  Relation.ReflTransGen (Move components)

/-- What every move preserves, every sequence of moves preserves. -/
theorem Moves.preserve {components : Components} {P : Progress → Prop}
    (step : ∀ {p q}, Move components p q → P p → P q) {p q : Progress}
    (h : Moves components p q) (hp : P p) : P q := by
  induction h with
  | refl => exact hp
  | tail _ hm ih => exact step hm ih

variable {components : Components}

theorem Claimed.of_composite {path : List String} {name : String} {d : Tree}
    (h : Occurs components path name d) (hc : Composite d) :
    Claimed components (dottedName path name) := by
  cases h with
  | top hd => exact .top hd
  | member ho hm hin => exact .nested (.member ho hm hin) (by simp) hc

theorem Visited.extend {r s : Registry} {path : List String} {name : String} {d : Tree}
    (h : Visited components r path name d) (he : r.Extends s) :
    Visited components s path name d :=
  ⟨h.headed, fun hc => he.contains (h.bound hc)⟩

theorem Known.extend {r s : Registry} {name : String} (h : Known components r name)
    (he : r.Extends s) : Known components s name :=
  h.imp_left he.contains

theorem Built.ne_incomplete {r : Registry} {path : List String} {name : String} {d : Tree}
    {descriptor : Descriptor} (h : Built components r path name d descriptor) :
    descriptor ≠ .incomplete := by
  cases h <;> simp

theorem Progress.release_finished {p : Progress} {name : String} (h : p.registry.Finished name) :
    p.update (·.release name) = p := by
  have hr := Registry.release_of_not_placeholder h.not_placeholder
  simp only [Progress.update, hr]

/-- A name that was reserved is still a placeholder after a conservative step. -/
theorem placeholder_of_reserved {r s : Registry} {name : String}
    (h : (r.reserve name).Extends s) : s.Placeholder name :=
  h.placeholder_iff.mpr ⟨_, Registry.get?_reserve_self _ _, rfl⟩

/-! ## Registering makes only moves -/

section

variable {enter : String → Session Unit} {path : List String} {name : String} {d : Tree}
  {p q : Progress}

/-- The steps of a composite component: its name is reserved, its body is read, and
the descriptor is bound. -/
theorem define_moves {body : Session Descriptor} (ho : Occurs components path name d)
    (hd : Composite d) (hp : p.registry.Grounded) (hcb : Conservative body)
    (hb : ∀ {p descriptor m}, p.registry.Grounded → Yields body p descriptor m →
      Moves components p m ∧ Built components m.registry path name d descriptor)
    (h : Yields (define (dottedName path name) body) p () q) :
    Moves components p q ∧ q.registry.contains (dottedName path name) = true := by
  rcases yields_define.mp h with ⟨hn, rfl⟩ | ⟨hn, descriptor, m, hy, rfl⟩
  · exact ⟨.refl, hn⟩
  · have hnone := Registry.not_contains_iff.mp hn
    obtain ⟨hmoves, hbuilt⟩ := hb (hp.reserve hnone) hy
    -- the body is read with the name reserved, so the release finds a finished descriptor
    obtain ⟨-, he⟩ := hcb.yields (hp.reserve hnone) hy
    have hfin : (m.registry.bind (dottedName path name) descriptor).Finished
        (dottedName path name) :=
      ⟨_, Registry.get?_bind_self _ _ _, hbuilt.ne_incomplete⟩
    rw [Progress.release_finished hfin]
    refine ⟨?_, hfin.contains⟩
    exact (Relation.ReflTransGen.head (.reserve (.of_composite ho hd) hnone) hmoves).tail
      (.finish ho (placeholder_of_reserved he) hbuilt)

theorem aliasPrimitive_moves {kind : PrimitiveKind} (hd : Entries.get? components name = some d)
    (hf : form? d = some (.primitive kind)) (h : Yields (aliasPrimitive name kind) p () q) :
    Moves components p q := by
  rcases yields_aliasPrimitive.mp h with ⟨-, rfl⟩ | ⟨-, -, rfl⟩ | ⟨hn, object, ho, rfl⟩
  · exact .refl
  · exact .refl
  · exact .single (.aliasPrimitive hd hf (Registry.not_contains_iff.mp hn) ho)

variable (hc : ∀ target, Conservative (enter target))

include hc

/-- A sequence of components: every one is visited, in order, and becomes an item. -/
theorem addItems_moves {declared items : Items} {group : List (String × Tree)}
    (hr : ∀ m ∈ group, ∀ {p q key required}, p.registry.Grounded →
      Yields (register components enter path m.1 m.2) p (key, required) q →
      Moves components p q ∧ Visited components q.registry path m.1 m.2)
    (hp : p.registry.Grounded)
    (h : Yields (addItems components enter path declared group) p items q) :
    Moves components p q ∧ items = declared ++ group.map (item path) ∧
      ∀ m ∈ group, Visited components q.registry path m.1 m.2 := by
  induction group generalizing declared p with
  | nil =>
    obtain ⟨rfl, rfl⟩ := yields_pure.mp h
    exact ⟨.refl, by simp, by simp⟩
  | cons component rest ih =>
    obtain ⟨name, d⟩ := component
    obtain ⟨-, typeName, required, m, hy, hrest⟩ := yields_addItems_cons.mp h
    obtain ⟨hmoves, hv⟩ := hr (name, d) List.mem_cons_self hp hy
    have hreg : Conservative (register components enter path name d) := .register hc path name d
    obtain ⟨hg, -⟩ := hreg.yields hp hy
    obtain ⟨_, _, -, -, -, rfl, rfl, -⟩ := yields_register.mp hy
    obtain ⟨htail, rfl, hvisited⟩ :=
      ih (fun m hin => hr m (List.mem_cons_of_mem _ hin)) hg hrest
    have he := ((Conservative.addItems hc path _ rest).yields hg hrest).2
    refine ⟨hmoves.trans htail, ?_, ?_⟩
    · simp [item]
    · intro m hin
      rcases List.mem_cons.mp hin with rfl | hin
      · exact hv.extend he
      · exact hvisited m hin

theorem mapBody_moves {fields : List (String × Tree)} {items : Items}
    (hf : form? (.map fields) = some .map)
    (hr : ∀ m ∈ members (.map fields), ∀ {p q key required}, p.registry.Grounded →
      Yields (register components enter (path ++ [name]) m.1 m.2) p (key, required) q →
      Moves components p q ∧ Visited components q.registry (path ++ [name]) m.1 m.2)
    (hp : p.registry.Grounded)
    (h : Yields (mapBody components enter path name fields) p items q) :
    Moves components p q ∧ Built components q.registry path name (.map fields) (.map items) := by
  obtain ⟨hgroups, hy⟩ := yields_mapBody.mp h
  obtain ⟨hmoves, rfl, hvisited⟩ := addItems_moves hc hr hp hy
  have hnames := yields_addItems_nodup (by simp) hy
  exact ⟨hmoves, .map hf ⟨hgroups, hnames⟩ hvisited⟩

variable (hm : ∀ {target p q}, p.registry.Grounded → Yields (enter target) p () q →
  Moves components p q)

include hm

/-- The steps of a top-level reference: its name is reserved, the target is entered,
and the name is bound if the target is finished and given up otherwise. -/
theorem aliasTarget_moves {target : String} (hd : Entries.get? components name = some d)
    (hf : form? d = some (.reference target)) (hp : p.registry.Grounded)
    (h : Yields (aliasTarget enter name target) p () q) : Moves components p q := by
  rcases yields_aliasTarget.mp h with ⟨-, rfl⟩ | ⟨hn, m, hy, hq⟩
  · exact .refl
  · have hnone := Registry.not_contains_iff.mp hn
    have hmoves : Moves components p m :=
      .head (.reserve (.top hd) hnone) (hm (hp.reserve hnone) hy)
    obtain ⟨-, he⟩ := (hc target).yields (hp.reserve hnone) hy
    have hplace := placeholder_of_reserved he
    rcases hq with ⟨-, rfl⟩ | ⟨object, hg, hi, rfl⟩
    · exact hmoves.tail (.release hd hf hplace)
    · have hfin : (m.registry.share name object).Finished name :=
        ⟨object, Registry.get?_share_self _ _ _, hi⟩
      rw [Progress.release_finished hfin]
      exact hmoves.tail (.aliasTarget hd hf hplace hg hi)

theorem itemTypes_moves {entries : List Tree} {names : List String} (hp : p.registry.Grounded)
    (h : Yields (itemTypes components enter path entries) p names q) :
    Moves components p q ∧ names = entries.filterMap entryName? ∧
      ∀ entry ∈ entries, ∃ name, entry = .string name ∧ Known components q.registry name := by
  induction entries generalizing p names with
  | nil =>
    obtain ⟨rfl, rfl⟩ := yields_pure.mp h
    exact ⟨.refl, rfl, by simp⟩
  | cons entry rest ih =>
    obtain ⟨name, tail, m, rfl, rfl, hname, hrest⟩ := yields_itemTypes_cons.mp h
    have hstep : Moves components p m ∧ m.registry.Grounded ∧
        Known components m.registry name := by
      rcases hname with ⟨hb, rfl⟩ | ⟨-, hk, hy⟩
      · exact ⟨.refl, hp, .inl hb⟩
      · exact ⟨hm hp hy, ((hc name).yields hp hy).1, .inr hk⟩
    obtain ⟨hmoves, hg, hk⟩ := hstep
    obtain ⟨htail, rfl, hknown⟩ := ih hg hrest
    have he := ((Conservative.itemTypes hc path rest).yields hg hrest).2
    refine ⟨hmoves.trans htail, rfl, ?_⟩
    intro entry hin
    rcases List.mem_cons.mp hin with rfl | hin
    · exact ⟨name, rfl, hk.extend he⟩
    · exact hknown entry hin

theorem listBody_moves {fields : List (String × Tree)} {descriptor : Descriptor}
    (hf : form? (.map fields) = some .list) (hp : p.registry.Grounded)
    (h : Yields (listBody components enter path fields) p descriptor q) :
    Moves components p q ∧ Built components q.registry path name (.map fields) descriptor := by
  obtain ⟨names, hn, hb, ho, rfl⟩ := yields_listBody.mp h
  obtain ⟨entries, he, hne, hy⟩ := yields_itemTypesOf.mp hn
  obtain ⟨hmoves, rfl, hk⟩ := itemTypes_moves hc hm hp hy
  have hnames : entries.filterMap entryName? = elementTypes (.map fields) := by
    rw [elementTypes, he]
  rw [hnames]
  exact ⟨hmoves, .list hf ⟨⟨entries, he, hne, hk⟩, hb, ho _ _⟩⟩

/-- Registering a component makes only moves, and visits it. The induction is over
the nesting of components. -/
theorem register_moves {key : String} {required : Bool} (ho : Occurs components path name d)
    (hp : p.registry.Grounded)
    (h : Yields (register components enter path name d) p (key, required) q) :
    Moves components p q ∧ Visited components q.registry path name d := by
  induction d using nesting_induction generalizing path name p q key required with
  | step d ih =>
    obtain ⟨fields, form, rfl, hf, hh, -, -, he⟩ := yields_register.mp h
    cases form with
    | primitive kind =>
      have hv : Visited components q.registry path name (.map fields) :=
        ⟨hh, fun hc => absurd hf hc.not_primitive⟩
      refine ⟨?_, hv⟩
      cases ho with
      | top hd => exact aliasPrimitive_moves hd hf he
      | member _ _ _ =>
        -- a nested scalar needs no name of its own
        rw [effect, if_neg (by simp)] at he
        obtain ⟨-, rfl⟩ := yields_pure.mp he
        exact .refl
    | reference target =>
      have hv : Visited components q.registry path name (.map fields) :=
        ⟨hh, fun hc => absurd hf hc.not_reference⟩
      refine ⟨?_, hv⟩
      cases ho with
      | top hd => exact aliasTarget_moves hc hm hd hf hp he
      | member _ _ _ =>
        rw [effect, if_neg (by simp)] at he
        exact hm hp he
    | map =>
      have hbody : Conservative (mapBody components enter path name fields) :=
        .mapBody fun m _ path name => .register hc path name m.2
      obtain ⟨hmoves, hb⟩ := define_moves ho (.inl hf) hp (hbody.bind fun _ => .pure _)
        (fun hp hy => by
          obtain ⟨items, _, hbody, hd⟩ := yields_bind.mp hy
          obtain ⟨rfl, rfl⟩ := yields_pure.mp hd
          refine mapBody_moves hc hf (fun m hin => ?_) hp hbody
          exact fun hp hy => ih m hin (.member ho hf hin) hp hy) he
      exact ⟨hmoves, hh, fun _ => hb⟩
    | list =>
      obtain ⟨hmoves, hb⟩ := define_moves ho (.inr hf) hp (.listBody hc path fields)
        (fun hp hy => listBody_moves hc hm hf hp hy) he
      exact ⟨hmoves, hh, fun _ => hb⟩

end

/-- Following references makes only moves, whatever the budget. -/
theorem enterWithin_moves {beyond : String → Session Unit}
    (hc : ∀ target, Conservative (beyond target))
    (hm : ∀ {target p q}, p.registry.Grounded → Yields (beyond target) p () q →
      Moves components p q)
    (budget : Nat) {target : String} {p q : Progress} (hp : p.registry.Grounded)
    (h : Yields (enterWithin components beyond budget target) p () q) : Moves components p q := by
  induction budget generalizing target p q with
  | zero => exact hm hp h
  | succ budget ih =>
    rcases yields_enterWithin_succ.mp h with ⟨-, rfl⟩ | ⟨-, d, key, required, hd, hy⟩
    · exact .refl
    · exact (register_moves (.enterWithin hc budget) ih (.top hd) hp hy).1

theorem pure_moves {p q : Progress} (h : Yields (pure () : Session Unit) p () q) :
    Moves components p q := by
  obtain ⟨-, rfl⟩ := yields_pure.mp h
  exact .refl

theorem enter_moves {target : String} {p q : Progress} (hp : p.registry.Grounded)
    (h : Yields (enter components target) p () q) : Moves components p q :=
  enterWithin_moves (fun _ => .pure ()) (fun _ => pure_moves) _ hp h

end ComponentSchema
