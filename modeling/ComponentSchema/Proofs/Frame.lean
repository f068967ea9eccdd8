import ComponentSchema.Proofs.Runs

/-!
# The frame of a registration

No step of a registration, whether it succeeds or not, changes a binding that it
finds, and none leaves a placeholder behind: the names it adds have finished
descriptors.
-/

namespace ComponentSchema

open Registration Definition

variable {α β : Type}

/-- The step keeps every binding it finds and adds only finished descriptors. -/
def Conservative (step : Session α) : Prop :=
  ∀ p : Progress, p.registry.Grounded →
    (outcome step p).2.registry.Grounded ∧ p.registry.Extends (outcome step p).2.registry

namespace Conservative

theorem of_unchanged {step : Session α} (h : ∀ p, (outcome step p).2 = p) :
    Conservative step := by
  intro p hp
  rw [h]
  exact ⟨hp, .refl _⟩

theorem pure (value : α) : Conservative (pure value : Session α) := of_unchanged fun _ => rfl

theorem refuse (path : List String) (defect : Defect) :
    Conservative (refuse path defect : Session α) := of_unchanged fun _ => rfl

theorem isBound (name : String) : Conservative (isBound name) := of_unchanged fun _ => rfl

theorem bind {x : Session α} {f : α → Session β} (hx : Conservative x)
    (hf : ∀ value, Conservative (f value)) : Conservative (x >>= f) := by
  intro p hp
  obtain ⟨hq, he⟩ := hx p hp
  rw [outcome_bind]
  rcases h : outcome x p with ⟨_ | value, q⟩
  · rw [h] at hq he
    exact ⟨hq, he⟩
  · rw [h] at hq he
    obtain ⟨hr, he'⟩ := hf value q hq
    exact ⟨hr, he.trans he'⟩

theorem map {x : Session α} (f : α → β) (hx : Conservative x) : Conservative (f <$> x) := by
  rw [← bind_pure_comp]
  exact hx.bind fun _ => pure _

/-- A successful run leaves a registry that extends the one it found. -/
theorem yields {step : Session α} (h : Conservative step) {p q : Progress} {value : α}
    (hp : p.registry.Grounded) (hy : Yields step p value q) :
    q.registry.Grounded ∧ p.registry.Extends q.registry := by
  have := h p hp
  rwa [hy.left] at this

/-! ## Attributes -/

theorem typeNameOf (path : List String) (fields : List (String × Tree)) :
    Conservative (typeNameOf path fields) := by
  rw [Registration.typeNameOf]
  split
  · exact refuse _ _
  · exact pure _
  · exact refuse _ _

theorem requiredOf (path : List String) (fields : List (String × Tree)) :
    Conservative (requiredOf path fields) := by
  rw [Registration.requiredOf]
  split
  · exact pure _
  · exact pure _
  · exact refuse _ _

theorem boundOf (path : List String) (fields : List (String × Tree)) (bound : Bound) :
    Conservative (boundOf path fields bound) := by
  rw [Registration.boundOf]
  split
  · exact pure _
  · exact pure _
  · split
    · exact pure _
    · exact refuse _ _
  · exact refuse _ _

theorem checkTarget (components : Components) (path : List String) (form : Form) :
    Conservative (checkTarget components path form) := by
  rw [ComponentSchema.checkTarget.eq_def]
  split
  · split
    · exact pure _
    · exact refuse _ _
  · exact pure _

theorem boundedList (path names : List String) (min max : Option Nat) :
    Conservative (boundedList path names min max) := by
  rw [ComponentSchema.boundedList.eq_def]
  split
  · split
    · exact refuse _ _
    · exact pure _
  · exact pure _

/-! ## Naming a type -/

theorem aliasPrimitive (name : String) (kind : PrimitiveKind) :
    Conservative (aliasPrimitive name kind) := by
  intro p hp
  obtain ⟨object, ho, hk⟩ := hp.kinds kind
  rw [Registration.aliasPrimitive, outcome_bind, outcome_isBound]
  cases hb : p.registry.contains name with
  | true => exact ⟨hp, .refl _⟩
  | false =>
    have he : p.registry.Extends (p.registry.share name object) :=
      .share (Registry.not_contains_iff.mp hb) (by rw [hk]; intro h; cases h)
    simp only [Bool.false_eq_true, if_false, outcome_bind, outcome_get, ho, outcome_modify]
    exact ⟨hp.extend he (hp.distinct.share name object), he⟩

/-- A step that only rebinds the reserved name gives a conservative bracket. -/
theorem reserving {name : String} {x : Session α} {step : Session Unit} (hx : Conservative x)
    (hs : ∀ p : Progress, (outcome x p).2.registry.Distinct →
      (outcome step p).2.registry.Distinct ∧ ∀ other, other ≠ name →
        (outcome step p).2.registry.get? other = (outcome x p).2.registry.get? other)
    {p : Progress} (hp : p.registry.Grounded) (hn : p.registry.contains name = false) :
    (outcome (reserving name step) p).2.registry.Grounded ∧
      p.registry.Extends (outcome (reserving name step) p).2.registry := by
  have hnone := Registry.not_contains_iff.mp hn
  obtain ⟨hg, he⟩ := hx (p.update (·.reserve name)) (hp.reserve hnone)
  obtain ⟨hd, ho⟩ := hs (p.update (·.reserve name)) hg.distinct
  have hx := Registry.Extends.of_reserved he hnone hd ho
  rw [outcome_reserving]
  exact ⟨hp.extend hx (hd.release name), hx⟩

theorem define {name : String} {body : Session Descriptor} (hb : Conservative body) :
    Conservative (define name body) := by
  intro p hp
  rw [Registration.define, outcome_bind, outcome_isBound]
  cases hn : p.registry.contains name with
  | true => exact ⟨hp, .refl _⟩
  | false =>
    refine reserving hb (fun m hd => ?_) hp hn
    rw [outcome_bind]
    rcases h : outcome body m with ⟨_ | descriptor, q⟩
    · rw [h] at hd
      exact ⟨hd, fun _ _ => rfl⟩
    · rw [h] at hd
      refine ⟨hd.bind name descriptor, fun other hne => ?_⟩
      exact Registry.get?_bind_ne _ _ hne

theorem aliasTarget {enter : String → Session Unit} {name target : String}
    (he : Conservative (enter target)) : Conservative (aliasTarget enter name target) := by
  intro p hp
  rw [Registration.aliasTarget, outcome_bind, outcome_isBound]
  cases hn : p.registry.contains name with
  | true => exact ⟨hp, .refl _⟩
  | false =>
    refine reserving he (fun m hd => ?_) hp hn
    rw [outcome_bind]
    rcases h : outcome (enter target) m with ⟨_ | value, q⟩
    · rw [h] at hd
      exact ⟨hd, fun _ _ => rfl⟩
    · rw [h] at hd
      simp only [outcome_bind, outcome_get]
      cases q.registry.get? target with
      | none => exact ⟨hd, fun _ _ => rfl⟩
      | some object =>
        by_cases hi : object.descriptor.isIncomplete
        · simp only [hi, if_true]
          exact ⟨hd, fun _ _ => rfl⟩
        · simp only [hi, Bool.false_eq_true, if_false, outcome_modify]
          refine ⟨hd.share name object, fun other hne => ?_⟩
          exact Registry.get?_share_ne _ _ hne

/-! ## Components -/

variable {components : Components} {enter : String → Session Unit}

theorem itemTypes (he : ∀ target, Conservative (enter target)) (path : List String)
    (entries : List Tree) :
    Conservative (itemTypes components enter path entries) := by
  induction entries with
  | nil => exact pure _
  | cons entry rest ih =>
    rw [Registration.itemTypes.eq_def]
    cases entry with
    | string name =>
      have htail : Conservative (do
          return name :: (← Registration.itemTypes components enter path rest)) :=
        ih.bind fun _ => pure _
      refine (isBound name).bind fun bound => ?_
      dsimp only
      split
      · exact htail
      · split
        · exact (he name).bind fun _ => htail
        · exact refuse _ _
    | _ => exact refuse _ _

theorem itemTypesOf (he : ∀ target, Conservative (enter target)) (path : List String)
    (fields : List (String × Tree)) :
    Conservative (itemTypesOf components enter path fields) := by
  rw [ComponentSchema.itemTypesOf]
  split
  case h_4 => exact itemTypes he path _
  all_goals exact refuse _ _

theorem listBody (he : ∀ target, Conservative (enter target)) (path : List String)
    (fields : List (String × Tree)) :
    Conservative (listBody components enter path fields) := by
  rw [listBody_eq]
  refine (itemTypesOf he path fields).bind fun names => ?_
  refine (boundOf path fields .min).bind fun min => (boundOf path fields .max).bind fun max => ?_
  exact boundedList path names min max

/-- Registering a sequence of components is conservative if registering each is. -/
theorem addItems_of_each {path : List String} {declared : Items} {group : List (String × Tree)}
    (hr : ∀ m ∈ group, ∀ path name, Conservative (register components enter path name m.2)) :
    Conservative (addItems components enter path declared group) := by
  induction group generalizing declared with
  | nil => exact pure _
  | cons component rest ih =>
    obtain ⟨name, d⟩ := component
    rw [Registration.addItems]
    dsimp only
    split
    · exact refuse _ _
    · refine (hr (name, d) List.mem_cons_self path name).bind fun found => ?_
      exact ih fun m hm => hr m (List.mem_cons_of_mem _ hm)

theorem itemEntries {path : List String} {owner : String} {declared : Items} {groups : List Tree}
    (hr : ∀ m ∈ groups.flatMap Tree.entries, ∀ path name,
      Conservative (register components enter path name m.2)) :
    Conservative (itemEntries components enter path owner declared groups) := by
  induction groups generalizing declared with
  | nil => exact pure _
  | cons group rest ih =>
    rw [List.flatMap_cons] at hr
    rw [Registration.itemEntries]
    have hgroup : Conservative (itemGroup components enter path owner declared group) := by
      rw [itemGroup.eq_def]
      split
      case h_3 => exact addItems_of_each fun m hm => hr m (List.mem_append_left _ hm)
      all_goals exact refuse _ _
    exact hgroup.bind fun _ => ih fun m hm => hr m (List.mem_append_right _ hm)

theorem mapBody {path : List String} {owner : String} {fields : List (String × Tree)}
    (hr : ∀ m ∈ members (.map fields), ∀ path name,
      Conservative (register components enter path name m.2)) :
    Conservative (mapBody components enter path owner fields) := by
  rw [mapBody_eq]
  simp only [members, Tree.get?] at hr
  cases h : Entries.get? fields "items" with
  | none => exact refuse _ _
  | some items =>
    rw [h] at hr
    simp only [itemsOf.eq_def]
    split
    case h_3 => exact itemEntries hr
    all_goals exact refuse _ _

theorem effect (he : ∀ target, Conservative (enter target)) {path : List String} {name : String}
    {fields : List (String × Tree)}
    (hr : ∀ m ∈ members (.map fields), ∀ path name,
      Conservative (register components enter path name m.2)) (form : Form) :
    Conservative (effect components enter path name fields form) := by
  cases form with
  | primitive kind =>
    rw [ComponentSchema.effect]
    split
    · exact aliasPrimitive name kind
    · exact pure ()
  | map => exact define ((mapBody hr).bind fun _ => pure _)
  | list => exact define (listBody he path fields)
  | reference target =>
    rw [ComponentSchema.effect]
    split
    · exact aliasTarget (he target)
    · exact he target

/-- The induction is over the nesting of components; references leave the
definition through `enter`. -/
theorem register (he : ∀ target, Conservative (enter target)) (path : List String)
    (name : String) (d : Tree) :
    Conservative (register components enter path name d) := by
  induction d using nesting_induction generalizing path name with
  | step d ih =>
    cases d with
    | map fields =>
      rw [register_map_eq]
      refine (typeNameOf path fields).bind fun typeName => ?_
      refine (requiredOf path fields).bind fun required => ?_
      refine (checkTarget components path _).bind fun _ => ?_
      exact (effect he (fun m hm path name => ih m hm path name) _).bind fun _ => pure _
    | _ => exact refuse _ _

theorem addItems (he : ∀ target, Conservative (enter target)) (path : List String)
    (declared : Items) (group : List (String × Tree)) :
    Conservative (addItems components enter path declared group) :=
  addItems_of_each fun m _ path name => register he path name m.2

/-- References are followed conservatively, whatever the budget. -/
theorem enterWithin {components : Components} {beyond : String → Session Unit}
    (hb : ∀ target, Conservative (beyond target)) (budget : Nat) (name : String) :
    Conservative (enterWithin components beyond budget name) := by
  induction budget generalizing name with
  | zero => exact hb name
  | succ budget ih =>
    rw [Registration.enterWithin]
    refine (isBound name).bind fun bound => ?_
    split
    · exact pure ()
    · split
      · exact refuse _ _
      · exact (register ih [] name _).map _

theorem enter_top (components : Components) (name : String) :
    Conservative (Registration.enter components name) :=
  enterWithin (fun _ => pure ()) _ name

end Conservative

/-! ## Placeholders of outer registrations -/

/-- What the step finds under `p` is a frame, whether the step succeeds or not: a bound
name keeps its object, a name that becomes bound gets a finished descriptor, and the
placeholders afterwards are those before. -/
structure Framed (step : Session α) (p : Progress) : Prop where
  kept : ∀ {name object}, p.registry.get? name = some object →
    (outcome step p).2.registry.get? name = some object
  added : ∀ {name object}, (outcome step p).2.registry.get? name = some object →
    p.registry.get? name = none → object.descriptor ≠ .incomplete
  placeholders : ∀ name,
    (outcome step p).2.registry.Placeholder name ↔ p.registry.Placeholder name

theorem Conservative.framed {step : Session α} (h : Conservative step) {p : Progress}
    (hp : p.registry.Grounded) : Framed step p := by
  obtain ⟨-, he⟩ := h p hp
  exact ⟨he.kept, he.added, fun _ => he.placeholder_iff⟩

/-- Registering a top-level component, references followed at most `budget` deep;
`enter` is the case in which the budget is the number of components. -/
abbrev follow (components : Components) (budget : Nat) : String → Session Unit :=
  enterWithin components (fun _ => pure ()) budget

/-- Whatever is registered under whatever name, the registry is a frame for it: for a
component, a reference to a top-level component, a top-level name, and the bodies of a
map and of a list, from any registry in which the kinds are bound and any names are
reserved. -/
theorem registration_framed (components : Components) (budget : Nat) {p : Progress}
    (hp : p.registry.Grounded) :
    (∀ path name d, Framed (register components (follow components budget) path name d) p) ∧
    (∀ (path : List String) name target, Framed
      (if path.isEmpty then aliasTarget (follow components budget) name target
        else follow components budget target) p) ∧
    (∀ name, Framed (follow components budget name) p) ∧
    (∀ path owner fields,
      Framed (mapBody components (follow components budget) path owner fields) p) ∧
    ∀ path fields, Framed (listBody components (follow components budget) path fields) p := by
  have hf : ∀ target, Conservative (follow components budget target) :=
    .enterWithin (fun _ => .pure ()) budget
  refine ⟨?_, ?_, ?_, ?_, ?_⟩
  · intro path name d
    exact (Conservative.register hf path name d).framed hp
  · intro path name target
    split
    · exact (Conservative.aliasTarget (hf target)).framed hp
    · exact (hf target).framed hp
  · intro name
    exact (hf name).framed hp
  · intro path owner fields
    refine Conservative.framed (.mapBody fun m _ path name => ?_) hp
    exact .register hf path name m.2
  · intro path fields
    exact (Conservative.listBody hf path fields).framed hp

/-- A map with an item that refers to `node` and one whose type is not known. -/
def brokenDefinition : Tree :=
  .map [("type", .string "map"), ("items", .list [.map [("next", .map [("type", .string "node")])],
    .map [("last", .map [("type", .string "missing")])]])]

/-- The body of `broken` comes to the placeholder of an outer registration of `node`,
fails later, and leaves the placeholder in its place. -/
theorem brokenDefinition_framed :
    (Registry.primitives.reserve "node").Grounded ∧
    (outcome (register [("node", brokenDefinition)] (follow [("node", brokenDefinition)] 1) []
      "broken" brokenDefinition) ⟨Registry.primitives.reserve "node", []⟩).1 =
        .error ⟨"broken", .unknownType "missing"⟩ ∧
    Framed (register [("node", brokenDefinition)] (follow [("node", brokenDefinition)] 1) []
      "broken" brokenDefinition) ⟨Registry.primitives.reserve "node", []⟩ := by
  have hg : (Registry.primitives.reserve "node").Grounded := .reserve .primitives rfl
  exact ⟨hg, rfl, (registration_framed [("node", brokenDefinition)] 1 hg).1 [] "broken" _⟩

end ComponentSchema
