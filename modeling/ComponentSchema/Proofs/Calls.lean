import ComponentSchema.Proofs.Chains

/-!
# The calls of a registration

A registration starts other registrations in two ways: those of the members of its map,
and those of the top-level components that it refers to. Both are said here with the
progress from which the inner registration starts, which is what the siblings before it
leave. The outcome of a registration depends on nothing but the answers to the references
it follows, so no call is left out.
-/

namespace ComponentSchema

open Registration Definition Relation

/-- A registration: the component, and the progress from which it starts. -/
structure Call where
  path : List String
  name : String
  definition : Tree
  progress : Progress

namespace Call

/-- The progress in which the name of the component's type is reserved. -/
def reserved (c : Call) : Progress := c.progress.update (·.reserve (dottedName c.path c.name))

/-- The registration goes on under the reserved name: the attributes that every
component has are well formed, and the name is not bound. -/
structure Opens (components : Components) (c : Call) : Prop where
  headed : WellHeaded components c.definition
  free : c.progress.registry.contains (dottedName c.path c.name) = false

section

variable (components : Components) (enter : String → Session Unit)

/-- The registration of a map starts that of a member, after the groups and the members
that stand before it. -/
inductive Nests : Call → Call → Prop
  | member {c : Call} {groups rest : List Tree} {before after : List (String × Tree)}
      {name : String} {d : Tree} {declared found : Items} {m q : Progress} :
      c.Opens components → form? c.definition = some .map →
      c.definition.get? "items" =
        some (.list (groups ++ .map (before ++ (name, d) :: after) :: rest)) →
      Yields (itemEntries components enter c.path c.name [] groups) c.reserved declared m →
      Yields (addItems components enter (c.path ++ [c.name]) declared before) m found q →
      found.declares name = false → Nests c ⟨c.path ++ [c.name], name, d, q⟩

/-- The registration asks for the top-level component `target` to be registered. -/
inductive Follows : Call → String → Progress → Prop
  | topReference {c : Call} {target : String} : c.Opens components → c.path = [] →
      form? c.definition = some (.reference target) → Follows c target c.reserved
  | innerReference {c : Call} {target : String} : WellHeaded components c.definition → c.path ≠ [] →
      form? c.definition = some (.reference target) → Follows c target c.progress
  | itemType {c : Call} {before after : List Tree} {target : String} {names : List String}
      {m : Progress} : c.Opens components → form? c.definition = some .list →
      c.definition.get? "item_types" = some (.list (before ++ .string target :: after)) →
      Yields (itemTypes components enter c.path before) c.reserved names m →
      m.registry.contains target = false → Entries.contains components target = true →
      Follows c target m

/-- One registration starts another. A reference starts one only if its target is not
bound yet. -/
inductive Calls : Call → Call → Prop
  | member {c inner : Call} : Nests components enter c inner → Calls c inner
  | target {c : Call} {name : String} {d : Tree} {m : Progress} :
      Follows components enter c name m → m.registry.contains name = false →
      Entries.get? components name = some d → Calls c ⟨[], name, d, m⟩

end

variable {components : Components} {enter : String → Session Unit} {c inner : Call}

theorem Nests.path_eq (h : Nests components enter c inner) :
    inner.path = c.path ++ [c.name] := by
  cases h
  rfl

theorem Nests.mem_members (h : Nests components enter c inner) :
    (inner.name, inner.definition) ∈ members c.definition := by
  cases h with
  | member _ _ hi =>
    rw [members, hi]
    simp [Tree.entries]

end Call

open Call

/-! ## The outcome depends on the references that are followed -/

section

variable {components : Components} {enter enter' : String → Session Unit} {path : List String}
  {name owner : String} {p : Progress}

theorem outcome_define_congr {body body' : Session Descriptor}
    (h : p.registry.contains name = false →
      outcome body' (p.update (·.reserve name)) = outcome body (p.update (·.reserve name))) :
    outcome (define name body') p = outcome (define name body) p := by
  rw [define, define, outcome_isBound_bind, outcome_isBound_bind]
  cases hb : p.registry.contains name with
  | true => rfl
  | false => exact outcome_reserving_congr (outcome_bind_congr (h hb) fun _ => rfl)

theorem outcome_aliasTarget_congr {target : String}
    (h : p.registry.contains name = false → outcome (enter' target) (p.update (·.reserve name)) =
      outcome (enter target) (p.update (·.reserve name))) :
    outcome (aliasTarget enter' name target) p = outcome (aliasTarget enter name target) p := by
  rw [aliasTarget, aliasTarget, outcome_isBound_bind, outcome_isBound_bind]
  cases hb : p.registry.contains name with
  | true => rfl
  | false => exact outcome_reserving_congr (outcome_bind_congr (h hb) fun _ => rfl)

theorem outcome_itemTypes_congr {entries : List Tree}
    (h : ∀ {before after target names m}, entries = before ++ .string target :: after →
      Yields (itemTypes components enter path before) p names m →
      m.registry.contains target = false → Entries.contains components target = true →
      outcome (enter' target) m = outcome (enter target) m) :
    outcome (itemTypes components enter' path entries) p =
      outcome (itemTypes components enter path entries) p := by
  induction entries generalizing p with
  | nil => rfl
  | cons entry rest ih =>
    cases entry with
    | string target =>
      -- what stands before an entry of the rest begins with this one
      have hrest : ∀ {m}, ((p.registry.contains target = true ∧ p = m) ∨
          (p.registry.contains target = false ∧ Entries.contains components target = true ∧
            Yields (enter target) p () m)) →
          outcome (itemTypes components enter' path rest) m =
            outcome (itemTypes components enter path rest) m := by
        intro m hm
        refine ih fun {before after other names q} hsplit hy hn hk => ?_
        have hcons : .string target :: rest =
            (.string target :: before) ++ .string other :: after := congrArg _ hsplit
        exact h hcons (yields_itemTypes_cons.mpr ⟨target, names, m, rfl, rfl, hm, hy⟩) hn hk
      rw [itemTypes, itemTypes, outcome_isBound_bind, outcome_isBound_bind]
      cases hb : p.registry.contains target with
      | true => exact outcome_bind_congr (hrest (.inl ⟨hb, rfl⟩)) fun _ => rfl
      | false =>
        simp only [Bool.false_eq_true, if_false]
        split
        next hk =>
          have hsplit : .string target :: rest = [] ++ .string target :: rest := rfl
          refine outcome_bind_congr (h hsplit rfl hb hk) fun {_ m} hy => ?_
          exact outcome_bind_congr (hrest (.inr ⟨hb, hk, hy⟩)) fun _ => rfl
        next => rfl
    | _ => rfl

theorem outcome_listBody_congr {fields : List (String × Tree)}
    (h : ∀ {entries}, (Tree.map fields).get? "item_types" = some (.list entries) →
      outcome (itemTypes components enter' path entries) p =
        outcome (itemTypes components enter path entries) p) :
    outcome (listBody components enter' path fields) p =
      outcome (listBody components enter path fields) p := by
  rw [listBody_eq, listBody_eq]
  refine outcome_bind_congr ?_ fun _ => rfl
  rw [itemTypesOf, itemTypesOf]
  split
  case h_4 hi => exact h hi
  all_goals rfl

theorem outcome_addItems_congr {declared : Items} {group : List (String × Tree)}
    (h : ∀ {before after name d found m}, group = before ++ (name, d) :: after →
      Yields (addItems components enter path declared before) p found m →
      found.declares name = false →
      outcome (register components enter' path name d) m =
        outcome (register components enter path name d) m) :
    outcome (addItems components enter' path declared group) p =
      outcome (addItems components enter path declared group) p := by
  induction group generalizing declared p with
  | nil => rfl
  | cons component rest ih =>
    obtain ⟨name, d⟩ := component
    rw [addItems, addItems]
    by_cases hd : declared.declares name
    · simp only [hd, if_true, refuse_bind]
    · rw [Bool.not_eq_true] at hd
      simp only [hd, Bool.false_eq_true, if_false]
      have hsplit : (name, d) :: rest = [] ++ (name, d) :: rest := rfl
      refine outcome_bind_congr (h hsplit rfl hd) fun {value m} hy => ?_
      obtain ⟨typeName, required⟩ := value
      refine ih fun {before after other d' found q} hsplit hb hn => ?_
      have hcons : (name, d) :: rest = ((name, d) :: before) ++ (other, d') :: after :=
        congrArg _ hsplit
      exact h hcons (yields_addItems_cons.mpr ⟨hd, typeName, required, m, hy, hb⟩) hn

theorem outcome_itemEntries_congr {declared : Items} {entries : List Tree}
    (h : ∀ {groups rest before after name d found m names q},
      entries = groups ++ .map (before ++ (name, d) :: after) :: rest →
      Yields (itemEntries components enter path owner declared groups) p found m →
      Yields (addItems components enter (path ++ [owner]) found before) m names q →
      names.declares name = false →
      outcome (register components enter' (path ++ [owner]) name d) q =
        outcome (register components enter (path ++ [owner]) name d) q) :
    outcome (itemEntries components enter' path owner declared entries) p =
      outcome (itemEntries components enter path owner declared entries) p := by
  induction entries generalizing declared p with
  | nil => rfl
  | cons entry rest ih =>
    rw [itemEntries, itemEntries]
    have hgroup : outcome (itemGroup components enter' path owner declared entry) p =
        outcome (itemGroup components enter path owner declared entry) p := by
      rw [itemGroup.eq_def, itemGroup.eq_def]
      split
      case h_3 group _ =>
        refine outcome_addItems_congr fun {before after name d _ _} hsplit hy hn => ?_
        have hcons : .map group :: rest = [] ++ .map (before ++ (name, d) :: after) :: rest := by
          rw [hsplit, List.nil_append]
        exact h hcons rfl hy hn
      all_goals rfl
    refine outcome_bind_congr hgroup fun {found m} hy => ?_
    refine ih fun {groups after before others name d names q _ _} hsplit hg hb hn => ?_
    have hcons : entry :: rest =
        (entry :: groups) ++ .map (before ++ (name, d) :: others) :: after := congrArg _ hsplit
    refine h hcons ?_ hb hn
    rw [itemEntries, yields_bind]
    exact ⟨found, m, hy, hg⟩

theorem outcome_mapBody_congr {fields : List (String × Tree)}
    (h : ∀ {entries}, (Tree.map fields).get? "items" = some (.list entries) →
      outcome (itemEntries components enter' path owner [] entries) p =
        outcome (itemEntries components enter path owner [] entries) p) :
    outcome (mapBody components enter' path owner fields) p =
      outcome (mapBody components enter path owner fields) p := by
  rw [mapBody_eq, mapBody_eq]
  split
  next items hi =>
    rw [itemsOf.eq_def, itemsOf.eq_def]
    split
    case h_3 => exact h hi
    all_goals rfl
  next => rfl

/-- A registration has one outcome, whatever follows its references, if the references
that it and its members follow have one outcome. The induction is over the nesting of
components. -/
theorem outcome_register_congr {c : Call}
    (h : ∀ {inner target m}, ReflTransGen (Nests components enter) c inner →
      Follows components enter inner target m →
      outcome (enter' target) m = outcome (enter target) m) :
    outcome (register components enter' c.path c.name c.definition) c.progress =
      outcome (register components enter c.path c.name c.definition) c.progress := by
  obtain ⟨path, name, d, p⟩ := c
  induction d using nesting_induction generalizing path name p with
  | step d ih =>
    cases d with
    | map fields =>
      simp only [register_map_eq]
      refine outcome_bind_congr rfl fun {typeName _} hy => ?_
      obtain ⟨ht, rfl⟩ := yields_typeNameOf.mp hy
      refine outcome_bind_congr rfl fun {_ _} hy => ?_
      obtain ⟨hr, -, rfl⟩ := yields_requiredOf.mp hy
      refine outcome_bind_congr rfl fun {_ _} hy => ?_
      obtain ⟨hk, rfl⟩ := yields_checkTarget.mp hy
      refine outcome_bind_congr ?_ fun _ => rfl
      have hf : form? (.map fields) = some (.ofName typeName) :=
        form?_eq_some_iff.mpr ⟨typeName, ht, rfl⟩
      have hh : WellHeaded components (.map fields) :=
        ⟨⟨typeName, ht, isTypeName_iff.mpr hk⟩, hr⟩
      generalize Form.ofName typeName = form at hf
      cases form with
      | primitive kind => rfl
      | reference target =>
        rw [effect, effect]
        by_cases hpath : path = []
        · subst hpath
          exact outcome_aliasTarget_congr fun hn => h .refl (.topReference ⟨hh, hn⟩ rfl hf)
        · rw [if_neg (by simpa using hpath), if_neg (by simpa using hpath)]
          exact h .refl (.innerReference hh hpath hf)
      | list =>
        refine outcome_define_congr fun hn => outcome_listBody_congr fun hi => ?_
        refine outcome_itemTypes_congr fun hsplit hy hnot hk => ?_
        exact h .refl (.itemType ⟨hh, hn⟩ hf (hsplit ▸ hi) hy hnot hk)
      | map =>
        refine outcome_define_congr fun hn => outcome_bind_congr ?_ fun _ => rfl
        refine outcome_mapBody_congr fun hi => ?_
        refine outcome_itemEntries_congr
          fun {_ _ _ _ other d _ _ _ q} hsplit hg hb hd => ?_
        have hnests : Nests components enter ⟨path, name, .map fields, p⟩
            ⟨path ++ [name], other, d, q⟩ :=
          .member ⟨hh, hn⟩ hf (hsplit ▸ hi) hg hb hd
        exact ih (other, d) hnests.mem_members _ _ _ fun hin => h (.head hnests hin)
    | _ => rfl

end

end ComponentSchema
