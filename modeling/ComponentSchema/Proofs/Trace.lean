import ComponentSchema.Proofs.Unresolved

/-!
# The trace of a compilation

A registration is recorded at the moment at which its name gets a finished descriptor.
A name that is reserved, or given up and tried again later, leaves no record. So the trace
of a compilation has every name of the schema once, the kinds apart, and each alias after
its target.
-/

namespace ComponentSchema

open Registration Definition

variable {components : Components}

/-- The name that became registered. -/
def Registration.typeName : Registration → String
  | .primitiveAlias name _ | .alias name _ | .component name _ => name

/-- The names of a trace in order. -/
def tracedNames (trace : List Registration) : List String := trace.map Registration.typeName

@[simp] theorem tracedNames_nil : tracedNames [] = [] := rfl

@[simp] theorem tracedNames_append (trace others : List Registration) :
    tracedNames (trace ++ others) = tracedNames trace ++ tracedNames others :=
  List.map_append

@[simp] theorem tracedNames_singleton (event : Registration) :
    tracedNames [event] = [event.typeName] := rfl

/-! ## Aliases -/

/-- The target of every alias is among the names before it. -/
def AliasesFollow (trace : List Registration) : Prop :=
  ∀ before name target after, trace = before ++ .alias name target :: after →
    target ∈ tracedNames before

theorem AliasesFollow.append {trace : List Registration} {event : Registration}
    (h : AliasesFollow trace)
    (he : ∀ name target, event = .alias name target → target ∈ tracedNames trace) :
    AliasesFollow (trace ++ [event]) := by
  intro before name target after heq
  rcases List.eq_nil_or_concat after with rfl | ⟨others, last, rfl⟩
  · obtain ⟨rfl, hlast⟩ := List.append_inj' heq rfl
    exact he name target (List.cons.inj hlast).1
  · have hsplit : trace ++ [event] = (before ++ .alias name target :: others) ++ [last] := by
      simpa using heq
    exact h before name target others (List.append_inj' hsplit rfl).1

/-! ## The invariant -/

/-- The trace is the history of the registry: the names in it are those that are finished,
the kinds apart, and each of them was recorded once. -/
structure Recorded (p : Progress) : Prop where
  grounded : p.registry.Grounded
  once : (tracedNames p.trace).Nodup
  finished_iff : ∀ {name}, name ∈ tracedNames p.trace ↔
    p.registry.Finished name ∧ ∀ kind : PrimitiveKind, name ≠ kind.name
  aliases : AliasesFollow p.trace

theorem Recorded.start : Recorded Progress.start where
  grounded := .primitives
  once := List.nodup_nil
  finished_iff {name} := by
    simp only [Progress.start, tracedNames_nil, List.not_mem_nil, false_iff, not_and]
    intro hf hk
    obtain ⟨object, ho, -⟩ := hf
    obtain ⟨kind, hname, -⟩ := Registry.get?_primitives ho
    exact hk kind hname
  aliases before name target after h := by simp [Progress.start] at h

section

variable {p q : Progress} {name : String}

/-- A name changes that is finished neither before nor after. -/
theorem Recorded.silent (h : Recorded p) (hn : ¬ p.registry.Finished name)
    (hd : q.registry.Distinct)
    (hs : ∀ other, other ≠ name → q.registry.get? other = p.registry.get? other)
    (hq : ¬ q.registry.Finished name) (ht : q.trace = p.trace) : Recorded q where
  grounded := h.grounded.update hn hd hs
  once := by
    rw [ht]
    exact h.once
  finished_iff {other} := by
    rw [ht, h.finished_iff, Registry.finished_update_iff hn hs]
    simp [hq]
  aliases := by
    rw [ht]
    exact h.aliases

/-- A name that was not finished gets a finished descriptor, and that is recorded. -/
theorem Recorded.record (h : Recorded p) (event : Registration)
    (hn : ¬ p.registry.Finished event.typeName) (hd : q.registry.Distinct)
    (hs : ∀ other, other ≠ event.typeName → q.registry.get? other = p.registry.get? other)
    (hq : q.registry.Finished event.typeName) (ht : q.trace = p.trace ++ [event])
    (ha : ∀ name target, event = .alias name target → target ∈ tracedNames p.trace) :
    Recorded q where
  grounded := h.grounded.update hn hd hs
  once := by
    rw [ht, tracedNames_append, tracedNames_singleton, ← List.concat_eq_append,
      List.nodup_concat]
    exact ⟨fun hm => hn (h.finished_iff.mp hm).1, h.once⟩
  finished_iff {other} := by
    -- the kinds were finished before, so the new name is none of them
    have hkind : ∀ kind : PrimitiveKind, event.typeName ≠ kind.name := by
      intro kind heq
      exact hn (heq ▸ h.grounded.finished_kind kind)
    rw [ht, tracedNames_append, tracedNames_singleton, List.mem_append, List.mem_singleton,
      h.finished_iff, Registry.finished_update_iff hn hs]
    constructor
    · rintro (⟨hf, hk⟩ | rfl)
      · exact ⟨.inl hf, hk⟩
      · exact ⟨.inr ⟨rfl, hq⟩, hkind⟩
    · rintro ⟨hf | ⟨rfl, -⟩, hk⟩
      · exact .inl ⟨hf, hk⟩
      · exact .inr rfl
  aliases := by
    rw [ht]
    exact h.aliases.append ha

/-- Every move keeps the trace the history of the registry. -/
theorem Recorded.step (hm : Move components p q) (h : Recorded p) : Recorded q := by
  have hd := h.grounded.distinct
  cases hm with
  | @reserve name _ hn =>
    refine h.silent (Registry.not_finished_of_get? hn) (hd.bind name .incomplete)
      (fun other hne => Registry.get?_reserve_ne _ hne) ?_ rfl
    exact Registry.Placeholder.not_finished ⟨_, Registry.get?_reserve_self _ name, rfl⟩
  | @release name _ _ _ _ hp =>
    refine h.silent hp.not_finished (hd.release name)
      (fun other hne => Registry.get?_release_ne hne) ?_ rfl
    exact Registry.not_finished_of_get? (Registry.get?_release_self hd hp)
  | @finish path name _ descriptor _ hp hb =>
    refine h.record (.component (dottedName path name) descriptor.kindName)
      hp.not_finished (hd.bind _ descriptor) (fun other hne => Registry.get?_bind_ne _ _ hne)
      ⟨_, Registry.get?_bind_self _ _ _, hb.ne_incomplete⟩ rfl ?_
    intro _ _ heq
    cases heq
  | @aliasPrimitive name _ kind object _ _ hn ho =>
    have hf : object.descriptor ≠ .incomplete := by
      obtain ⟨other, hother, hi⟩ := h.grounded.finished_kind kind
      rw [ho] at hother
      cases hother
      exact hi
    refine h.record (.primitiveAlias name kind) (Registry.not_finished_of_get? hn)
      (hd.share name object) (fun other hne => Registry.get?_share_ne _ object hne)
      ⟨object, Registry.get?_share_self _ _ _, hf⟩ rfl ?_
    intro _ _ heq
    cases heq
  | @aliasTarget name target _ object _ hform hp ho hf =>
    refine h.record (.alias name target) hp.not_finished (hd.share name object)
      (fun other hne => Registry.get?_share_ne _ object hne)
      ⟨object, Registry.get?_share_self _ _ _, hf⟩ rfl ?_
    -- the target was finished and is no kind, so it has its record already
    intro _ _ heq
    cases heq
    exact h.finished_iff.mpr ⟨⟨object, ho, hf⟩, form?_reference_ne_kind hform⟩

end

/-! ## Whole compilations -/

/-- What is bound when nothing is reserved: the kinds, and the names of the trace. -/
theorem Recorded.names_perm {p : Progress} (h : Recorded p)
    (hc : ∀ {name}, ¬ p.registry.Placeholder name) :
    (Entries.names p.registry.bindings).Perm
      (PrimitiveKind.all.map PrimitiveKind.name ++ tracedNames p.trace) := by
  have hkinds : ∀ {name}, name ∈ PrimitiveKind.all.map PrimitiveKind.name ↔
      ∃ kind : PrimitiveKind, name = kind.name := by
    intro name
    constructor
    · intro hm
      obtain ⟨kind, -, rfl⟩ := List.mem_map.mp hm
      exact ⟨kind, rfl⟩
    · rintro ⟨kind, rfl⟩
      cases kind <;> decide
  have hbound : ∀ {name}, name ∈ Entries.names p.registry.bindings ↔ p.registry.Finished name := by
    intro name
    rw [Entries.mem_names_iff_get?]
    constructor
    · rintro ⟨object, ho⟩
      exact (Registry.finished_or_placeholder (Registry.contains_of_get? ho)).resolve_right hc
    · rintro ⟨object, ho, -⟩
      exact ⟨object, ho⟩
  have hnodup : (PrimitiveKind.all.map PrimitiveKind.name ++ tracedNames p.trace).Nodup := by
    refine List.nodup_append.mpr ⟨by decide, h.once, ?_⟩
    rintro name hm other ho rfl
    obtain ⟨kind, hk⟩ := hkinds.mp hm
    exact (h.finished_iff.mp ho).2 kind hk
  refine (List.perm_ext_iff_of_nodup h.grounded.distinct hnodup).mpr fun name => ?_
  rw [hbound, List.mem_append, hkinds, h.finished_iff]
  constructor
  · intro hf
    by_cases hk : ∃ kind : PrimitiveKind, name = kind.name
    · exact .inl hk
    · exact .inr ⟨hf, fun kind heq => hk ⟨kind, heq⟩⟩
  · rintro (⟨kind, rfl⟩ | ⟨hf, -⟩)
    · exact h.grounded.finished_kind kind
    · exact hf

/-- The trace of a compilation that succeeds is the history of its registry. -/
theorem compile_recorded {definition : Tree} {schema : Schema}
    (h : compile definition = .ok schema) :
    Recorded ⟨schema.registry, (Compilation.of definition).trace⟩ := by
  obtain ⟨components, rfl, hne, trace, hy, -⟩ := compile_ok_iff.mp h
  have htrace : (Compilation.of (.map components)).trace = trace := by
    cases components with
    | nil => exact absurd rfl hne
    | cons component rest => exact congrArg Progress.trace hy.left
  rw [htrace]
  exact (registerAll_moves hy).1.preserve Recorded.step .start

/-- Each type of a compiled schema was registered once: its trace has one event for every
bound name that is not a kind, none for any other name, and each alias comes after the
event of its target. -/
theorem registered_once {definition : Tree} {schema : Schema} {trace : List Registration}
    (h : compile definition = .ok schema) (ht : (Compilation.of definition).trace = trace) :
    (∀ name, schema.registry.contains name = true → (∀ kind : PrimitiveKind, name ≠ kind.name) →
      (tracedNames trace).count name = 1) ∧
    (∀ event ∈ trace, schema.registry.contains event.typeName = true ∧
      ∀ kind : PrimitiveKind, event.typeName ≠ kind.name) ∧
    schema.size = trace.length + 4 ∧
    ∀ before name target after, trace = before ++ .alias name target :: after →
      ∃ event ∈ before, event.typeName = target := by
  have hr := compile_recorded h
  rw [ht] at hr
  obtain ⟨components, -, -, _, hy, -⟩ := compile_ok_iff.mp h
  have hcomplete : ∀ {name}, ¬ schema.registry.Placeholder name :=
    registerAll_not_placeholder hy
  refine ⟨?_, ?_, ?_, ?_⟩
  · intro name hc hk
    have hf := (Registry.finished_or_placeholder hc).resolve_right hcomplete
    exact List.count_eq_one_of_mem hr.once (hr.finished_iff.mpr ⟨hf, hk⟩)
  · intro event hm
    obtain ⟨hf, hk⟩ := hr.finished_iff.mp (List.mem_map_of_mem hm)
    exact ⟨hf.contains, hk⟩
  · have hlength := (hr.names_perm hcomplete).length_eq
    simp only [Entries.names, tracedNames, List.length_append, List.length_map] at hlength
    rw [Schema.size, Registry.size, hlength, Nat.add_comm]
    rfl
  · intro before name target after heq
    exact List.mem_map.mp (hr.aliases before name target after heq)

/-- The map `a` has a member of the type `b`, which is another name for `a`. -/
def renamedDefinition : Tree :=
  .map [("a", .map [("type", .string "map"),
      ("items", .list [.map [("x", .map [("type", .string "b")])]])]),
    ("b", .map [("type", .string "a")]), ("c", .map [("type", .string "int")])]

def renamedSchema : Schema where
  root := [⟨"a", "a", true⟩, ⟨"b", "a", true⟩, ⟨"c", "int", true⟩]
  registry :=
    { bindings := Registry.primitives.bindings ++
        [("a", ⟨6, .map [⟨"x", "b", true⟩]⟩), ("b", ⟨6, .map [⟨"x", "b", true⟩]⟩),
          ("c", ⟨2, .primitive .int⟩)]
      nextId := 8 }

/-- The alias `b` is reserved inside the body of `a`, given up there, and registered when
its own turn comes: it has one event, after that of `a`. -/
theorem renamedDefinition_registered_once :
    compile renamedDefinition = .ok renamedSchema ∧
    (Compilation.of renamedDefinition).trace =
      [.component "a" "map", .alias "b" "a", .primitiveAlias "c" .int] ∧
    (tracedNames (Compilation.of renamedDefinition).trace).count "b" = 1 ∧
    renamedSchema.size = (Compilation.of renamedDefinition).trace.length + 4 := by
  have hy : Yields (registerAll renamedDefinition.entries) Progress.start renamedSchema.root
      ⟨renamedSchema.registry,
        [.component "a" "map", .alias "b" "a", .primitiveAlias "c" .int]⟩ := rfl
  have hc : compile renamedDefinition = .ok renamedSchema :=
    compile_ok_of_run (by decide) hy (by decide) (by decide)
  obtain ⟨hone, -, hsize, -⟩ := registered_once hc rfl
  exact ⟨hc, rfl, hone "b" (by decide) (by rintro ⟨⟩ <;> decide), hsize⟩

end ComponentSchema
