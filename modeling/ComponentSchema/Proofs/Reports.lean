import ComponentSchema.Command.Run
import ComponentSchema.Proofs.ByteOrder
import ComponentSchema.Proofs.Linking
import Mathlib.Data.String.Basic

/-!
# Reports

Both actions load and compile the schema first and in the same way, so they agree on what is
wrong with it, and nothing but the file of the schema has a say in that. Once the schema is
accepted, one lists its types and the other reports on the document alone.
-/

namespace ComponentSchema

/-! ## Runs of jobs -/

/-- The tree of the document at a path, or why it cannot be loaded. -/
def loaded (files : FileSystem) (path : String) : Except LoadError Tree := do
  (← Source.read files path).tree

/-- The schema whose definition stands at a path, or what is wrong with it. -/
def schemaAt (files : FileSystem) (path : String) : Except LoadError (Except SchemaError Schema) :=
  (loaded files path).map compile

theorem schemaAt_eq_ok_iff {files : FileSystem} {path : String}
    {verdict : Except SchemaError Schema} : schemaAt files path = .ok verdict ↔
      ∃ definition, loaded files path = .ok definition ∧ compile definition = verdict := by
  rw [schemaAt]
  cases loaded files path <;> simp [Except.map]

/-- None of the events is a failure. -/
def Quiet (events : List Event) : Prop := ∀ cause, .failed cause ∉ events

theorem Quiet.append {events later : List Event} (h : Quiet events) (h' : Quiet later) :
    Quiet (events ++ later) := by
  intro cause hm
  rcases List.mem_append.mp hm with hm | hm
  · exact h cause hm
  · exact h' cause hm

namespace Job

/-- A job gives a result and adds events to whatever stands in the log. -/
def Runs {α : Type} (job : Job α) (result : Except LoadError α) (events : List Event) : Prop :=
  ∀ log, job.run.run log = (result, log ++ events)

section

variable {α β : Type} {job : Job α} {f : α → Job β} {events later : List Event}

theorem runs_pure (a : α) : Runs (pure a) (.ok a) [] := by
  intro log
  rw [List.append_nil]
  rfl

theorem runs_lift {found result : Except LoadError α} (h : found = result) :
    Runs (liftM found) result [] := by
  intro log
  rw [List.append_nil, h]
  cases result <;> rfl

theorem runs_modify (events : List Event) : Runs (modify (· ++ events)) (.ok ()) events :=
  fun _ => rfl

theorem runs_log (event : Event) : Runs (log event) (.ok ()) [event] := runs_modify [event]

theorem Runs.bind {a : α} {result : Except LoadError β} (h : Runs job (.ok a) events)
    (hf : Runs (f a) result later) : Runs (job >>= f) result (events ++ later) := by
  intro log
  rw [ExceptT.run_bind, StateT.run_bind, h log, ← List.append_assoc]
  exact hf _

theorem Runs.bind_error {cause : LoadError} (h : Runs job (.error cause) events) :
    Runs (job >>= f) (.error cause) events := by
  intro log
  rw [ExceptT.run_bind, StateT.run_bind, h log]
  rfl

/-- A step that adds no event. -/
theorem Runs.bind_pure {a : α} {b : β} (h : Runs job (.ok a) events) (hf : f a = pure b) :
    Runs (job >>= f) (.ok b) events := by
  have hb : Runs (f a) (.ok b) [] := hf ▸ runs_pure b
  rw [← List.append_nil events]
  exact h.bind hb

end

theorem exists_runs_load (files : FileSystem) (path : String) :
    ∃ events, Runs (load files path) (loaded files path) events ∧ Quiet events := by
  rw [load, loaded]
  cases hsource : Source.read files path with
  | error cause => exact ⟨[], (runs_lift rfl).bind_error, nofun⟩
  | ok source =>
    refine ⟨_, (runs_lift rfl).bind ((runs_log (.loading source)).bind (runs_lift rfl)), ?_⟩
    simp [Quiet]

theorem exists_runs_compile (definition : Tree) :
    ∃ events, Runs (compile definition) (.ok (ComponentSchema.compile definition)) events ∧
      Quiet events := by
  rw [compile, ComponentSchema.compile]
  cases (Compilation.of definition).outcome with
  | error e =>
    refine ⟨_, (runs_modify _).bind (runs_pure _), ?_⟩
    simp [Quiet]
  | ok schema =>
    refine ⟨_, (runs_modify _).bind ((runs_log _).bind (runs_pure _)), ?_⟩
    simp [Quiet]

theorem exists_runs_loadSchema (files : FileSystem) (path : String) :
    ∃ events, Runs (loadSchema files path) (schemaAt files path) events ∧ Quiet events := by
  obtain ⟨events, hload, hquiet⟩ := exists_runs_load files path
  rw [loadSchema, schemaAt]
  cases hloaded : loaded files path with
  | error cause =>
    rw [hloaded] at hload
    exact ⟨events, hload.bind_error, hquiet⟩
  | ok definition =>
    rw [hloaded] at hload
    obtain ⟨later, hcompile, hlater⟩ := exists_runs_compile definition
    exact ⟨_, hload.bind hcompile, hquiet.append hlater⟩

/-- Only the file at the path matters. -/
theorem loadSchema_congr {files files' : FileSystem} {path : String}
    (h : files' path = files path) : loadSchema files' path = loadSchema files path := by
  simp only [loadSchema, load, Source.read, FileSystem.readText, h]

end Job

/-! ## Reports -/

namespace Report

open Job

theorem ofJob_of_ok {job : Job (Except String (List String))} {lines : List String}
    {events : List Event} (h : Runs job (.ok (.ok lines)) events) :
    ofJob job = ⟨.starting :: events, "valid" :: lines, 0⟩ := by
  rw [ofJob, h]
  rfl

theorem ofJob_of_refusal {job : Job (Except String (List String))} {line : String}
    {events : List Event} (h : Runs job (.ok (.error line)) events) :
    ofJob job = ⟨.starting :: events, [line], 1⟩ := by
  rw [ofJob, h]
  rfl

theorem ofJob_of_error {job : Job (Except String (List String))} {cause : LoadError}
    {events : List Event} (h : Runs job (.error cause) events) :
    ofJob job = ⟨.starting :: events ++ [.failed cause], [], 1⟩ := by
  rw [ofJob, h]
  rfl

theorem check_congr {files files' : FileSystem} {schema : String}
    (h : files' schema = files schema) : check files' schema = check files schema := by
  rw [check, check, describeSchema, describeSchema, loadSchema_congr h]

variable {files : FileSystem} {schema : String}

/-- If there is no schema, both reports tell the same reason. -/
theorem validate_eq_check (h : ∀ accepted, schemaAt files schema ≠ .ok (.ok accepted))
    (data : String) :
    (check files schema).exit = 1 ∧ validate files schema data = check files schema := by
  -- neither job goes on after the schema, so both have the events of loading it
  obtain ⟨events, hruns, -⟩ := exists_runs_loadSchema files schema
  cases hschema : schemaAt files schema with
  | error cause =>
    rw [hschema] at hruns
    have hcheck : check files schema = ⟨.starting :: events ++ [.failed cause], [], 1⟩ :=
      ofJob_of_error hruns.bind_error.bind_error
    have hvalidate : validate files schema data = ⟨.starting :: events ++ [.failed cause], [], 1⟩ :=
      ofJob_of_error hruns.bind_error.bind_error
    exact ⟨by rw [hcheck], hvalidate.trans hcheck.symm⟩
  | ok verdict =>
    cases verdict with
    | ok accepted => exact absurd hschema (h accepted)
    | error e =>
      rw [hschema] at hruns
      have hdescribe : Runs (describeSchema files schema) (.ok (.error e)) events :=
        hruns.bind_pure rfl
      have hfiles : Runs (validateFiles files schema data) (.ok (.error (.schema e))) events :=
        hruns.bind_pure rfl
      have hcheck : check files schema = ⟨.starting :: events, [e.display], 1⟩ :=
        ofJob_of_refusal (hdescribe.bind_pure rfl)
      have hvalidate : validate files schema data = ⟨.starting :: events, [e.display], 1⟩ :=
        ofJob_of_refusal (hfiles.bind_pure rfl)
      exact ⟨by rw [hcheck], hvalidate.trans hcheck.symm⟩

theorem check_of_accepted {accepted : Schema} (h : schemaAt files schema = .ok (.ok accepted)) :
    ∃ events, check files schema = ⟨events, "valid" :: accepted.typeLines, 0⟩ := by
  obtain ⟨events, hruns, -⟩ := exists_runs_loadSchema files schema
  rw [h] at hruns
  have hdescribe : Runs (describeSchema files schema) (.ok (.ok accepted.typeLines)) events :=
    hruns.bind_pure rfl
  exact ⟨_, ofJob_of_ok (hdescribe.bind_pure rfl)⟩

/-- A schema is accepted exactly if it can be loaded and compiled. -/
theorem check_exit_eq_zero_iff :
    (check files schema).exit = 0 ↔ ∃ accepted, schemaAt files schema = .ok (.ok accepted) := by
  constructor
  · intro hzero
    by_contra hnone
    have hone := (validate_eq_check (not_exists.mp hnone) schema).1
    omega
  · rintro ⟨accepted, h⟩
    obtain ⟨events, hcheck⟩ := check_of_accepted h
    rw [hcheck]

/-- With an accepted schema the result is about the document only. -/
theorem exists_runs_validateFiles {accepted : Schema}
    (h : schemaAt files schema = .ok (.ok accepted)) (data : String) :
    ∃ events, Runs (validateFiles files schema data)
        ((loaded files data).map fun document => (accepted.validate document).mapError .document)
        events ∧ Quiet events := by
  obtain ⟨earlier, hruns, hearlier⟩ := exists_runs_loadSchema files schema
  obtain ⟨loading, hload, hloading⟩ := exists_runs_load files data
  rw [h] at hruns
  have haccepted : Quiet [.schemaAccepted schema accepted.size] := by simp [Quiet]
  have hvalidating : Quiet [.validating accepted.size] := by simp [Quiet]
  cases hloaded : loaded files data with
  | error cause =>
    rw [hloaded] at hload
    exact ⟨_, hruns.bind ((runs_log _).bind hload.bind_error),
      hearlier.append (haccepted.append hloading)⟩
  | ok document =>
    rw [hloaded] at hload
    exact ⟨_, hruns.bind ((runs_log _).bind (hload.bind ((runs_log _).bind_pure rfl))),
      hearlier.append (haccepted.append (hloading.append hvalidating))⟩

/-- The report on a document, after other events. -/
def ofDocument (events : List Event) (accepted : Schema) : Except LoadError Tree → Report
  | .error cause => ⟨events ++ [.failed cause], [], 1⟩
  | .ok document =>
      match accepted.validate document with
      | .ok _ => ⟨events, ["valid"], 0⟩
      | .error e => ⟨events, [e.display], 1⟩

theorem validate_of_accepted {accepted : Schema}
    (h : schemaAt files schema = .ok (.ok accepted)) (data : String) :
    ∃ events, validate files schema data = ofDocument events accepted (loaded files data) ∧
      Quiet events := by
  obtain ⟨events, hruns, hquiet⟩ := exists_runs_validateFiles h data
  have hstarting : Quiet [.starting] := by simp [Quiet]
  refine ⟨.starting :: events, ?_, hstarting.append hquiet⟩
  cases hloaded : loaded files data with
  | error cause =>
    rw [hloaded] at hruns
    exact ofJob_of_error hruns.bind_error
  | ok document =>
    rw [hloaded] at hruns
    rw [ofDocument]
    cases hverdict : accepted.validate document with
    | ok _ =>
      simp only [Except.map, hverdict] at hruns
      exact ofJob_of_ok (hruns.bind_pure rfl)
    | error e =>
      simp only [Except.map, hverdict] at hruns
      exact ofJob_of_refusal (hruns.bind_pure rfl)

/-! ## Lines -/

/-- The character with which a line starts. -/
def initial? (line : String) : Option Char := line.toList.head?

theorem initial?_append {a : String} {c : Char} (h : initial? a = some c) (b : String) :
    initial? (a ++ b) = some c := by
  rw [initial?] at h
  rw [initial?, String.toList_append, List.head?_append, h]
  rfl

theorem initial?_schemaError (e : SchemaError) : initial? e.display = some 'S' := by
  have h : initial? "SchemaError - Path: " = some 'S' := by decide
  exact initial?_append (initial?_append (initial?_append h _) _) _

theorem initial?_validationError (e : ValidationError) : initial? e.display = some 'V' := by
  have h : initial? "ValidationError - Path: " = some 'V' := by decide
  exact initial?_append (initial?_append (initial?_append h _) _) _

theorem initial?_event (event : Event) : ∃ c, initial? event.line = some c ∧ c ≠ 'S' := by
  have h : ∃ c, initial? event.level.name = some c ∧ c ≠ 'S' := by
    cases event.level <;> exact ⟨_, rfl, by decide⟩
  obtain ⟨c, hc, hne⟩ := h
  exact ⟨c, initial?_append (initial?_append hc _) _, hne⟩

/-- No line of a report on a document is about the schema. -/
theorem display_not_mem_ofDocument (e : SchemaError) (events : List Event) (accepted : Schema)
    (document : Except LoadError Tree) (verbosity : Nat) :
    e.display ∉ (ofDocument events accepted document).lines verbosity := by
  intro hm
  have hinitial := initial?_schemaError e
  rcases List.mem_append.mp hm with hm | hm
  · obtain ⟨event, -, hline⟩ := List.mem_map.mp hm
    obtain ⟨c, hc, hne⟩ := initial?_event event
    rw [← hline, hc] at hinitial
    exact hne (Option.some.inj hinitial)
  · rw [ofDocument.eq_def] at hm
    split at hm
    next => cases hm
    next document =>
      split at hm
      next =>
        rw [List.mem_singleton.mp hm] at hinitial
        exact absurd hinitial (by decide)
      next error _ =>
        rw [List.mem_singleton.mp hm, initial?_validationError] at hinitial
        exact absurd hinitial (by decide)

/-- The failure that such a report tells of is that of the document. -/
theorem failed_mem_ofDocument {events : List Event} (hq : Quiet events) {accepted : Schema}
    {document : Except LoadError Tree} {cause : LoadError} :
    .failed cause ∈ (ofDocument events accepted document).events ↔ document = .error cause := by
  have hnot := hq cause
  rw [ofDocument.eq_def]
  split
  next => simp [hnot, eq_comm]
  next => split <;> simp [hnot]

end Report

/-! ## Types in name order -/

/-- The bindings of a registry in the order of their names. -/
def Registry.sorted (r : Registry) : List (String × DescriptorObject) :=
  r.bindings.mergeSort fun a b => a.1 ≤ b.1

theorem Registry.map_sorted (r : Registry) : r.sorted.map Prod.fst = r.typeNames :=
  List.map_mergeSort fun _ _ _ _ => rfl

theorem Registry.sorted_perm (r : Registry) : r.sorted.Perm r.bindings :=
  List.mergeSort_perm _ _

theorem Registry.Distinct.sorted_lt {r : Registry} (h : r.Distinct) :
    r.sorted.Pairwise fun a b => a.1 < b.1 := by
  have hle : r.sorted.Pairwise fun a b => a.1 ≤ b.1 := by
    refine (List.pairwise_mergeSort ?_ ?_ r.bindings).imp fun h => of_decide_eq_true h
    · intro a b c hab hbc
      exact decide_eq_true ((of_decide_eq_true hab).trans (of_decide_eq_true hbc))
    · intro a b
      simpa using le_total a.1 b.1
  have hne : r.sorted.Pairwise fun a b => a.1 ≠ b.1 := by
    have hn : (r.sorted.map Prod.fst).Nodup := (r.sorted_perm.map Prod.fst).nodup_iff.mpr h
    exact List.pairwise_map.mp hn
  exact (hle.and hne).imp fun h => lt_of_le_of_ne h.1 h.2

theorem Schema.typeLines_eq {schema : Schema} (h : schema.registry.Distinct) :
    schema.typeLines =
      schema.registry.sorted.map fun entry => entry.1 ++ ": " ++ entry.2.descriptor.render := by
  rw [typeLines, types, ← Registry.map_sorted, List.map_map, List.map_map]
  refine List.map_congr_left fun entry hm => ?_
  have hget : schema.registry.get? entry.1 = some entry.2 :=
    Entries.get?_of_mem h (schema.registry.sorted_perm.mem_iff.mp hm)
  simp only [Function.comp_apply, Registry.resolve_of_get? hget]

/-- One line for each binding of a registry, with names that increase strictly by their
bytes. -/
def Registry.ListedBy (r : Registry) (lines : List String) : Prop :=
  ∃ entries : List (String × DescriptorObject), entries.Perm r.bindings ∧
    entries.Pairwise (fun a b => Utf8.bytes a.1 < Utf8.bytes b.1) ∧
    lines = entries.map fun entry => entry.1 ++ ": " ++ entry.2.descriptor.render

theorem Schema.listedBy_typeLines {schema : Schema} (h : schema.registry.Distinct) :
    schema.registry.ListedBy schema.typeLines :=
  ⟨schema.registry.sorted, schema.registry.sorted_perm, h.sorted_lt.imp Utf8.bytes_lt,
    Schema.typeLines_eq h⟩

/-! ## Agreement -/

open Report Registration

/-- A check that does not exit with zero is what every validation with this schema reports,
whatever the data and the other files are. After a check that does, no validation reports a
schema error or a failure other than that of its data, and the check lists the registry. -/
theorem check_decides_schema (files : FileSystem) (schema : String) :
    ((check files schema).exit ≠ 0 → ∀ (files' : FileSystem) (data : String),
      files' schema = files schema → validate files' schema data = check files schema) ∧
    ((check files schema).exit = 0 →
      (∀ (files' : FileSystem) (data : String), files' schema = files schema →
        (∀ verbosity (e : SchemaError),
          e.display ∉ (validate files' schema data).lines verbosity) ∧
        ∀ cause, .failed cause ∈ (validate files' schema data).events ↔
          loaded files' data = .error cause) ∧
      ∃ accepted lines, schemaAt files schema = .ok (.ok accepted) ∧
        accepted.registry.ListedBy lines ∧ (check files schema).printed = "valid" :: lines) := by
  constructor
  · intro hexit files' data hsame
    rw [← check_congr hsame] at hexit ⊢
    have hnone : ∀ accepted, schemaAt files' schema ≠ .ok (.ok accepted) :=
      fun accepted h => hexit (check_exit_eq_zero_iff.mpr ⟨accepted, h⟩)
    exact (validate_eq_check hnone data).2
  · intro hexit
    constructor
    · intro files' data hsame
      rw [← check_congr hsame] at hexit
      obtain ⟨accepted, h⟩ := check_exit_eq_zero_iff.mp hexit
      obtain ⟨events, hreport, hquiet⟩ := validate_of_accepted h data
      rw [hreport]
      exact ⟨fun verbosity e => display_not_mem_ofDocument e events accepted _ verbosity,
        fun cause => failed_mem_ofDocument hquiet⟩
    · obtain ⟨accepted, h⟩ := check_exit_eq_zero_iff.mp hexit
      obtain ⟨events, hcheck⟩ := check_of_accepted h
      obtain ⟨definition, -, hcompile⟩ := schemaAt_eq_ok_iff.mp h
      refine ⟨accepted, accepted.typeLines, h, ?_, by rw [hcheck]⟩
      exact Schema.listedBy_typeLines (compile_grounded hcompile).distinct

theorem readText_of_text {files : FileSystem} {path text : String}
    (h : files path = .ok text.toUTF8) : files.readText path = .ok text := by
  have hdecode : String.fromUTF8? text.toUTF8 = some text := dif_pos text.isValidUTF8
  rw [FileSystem.readText, h]
  simp only [bind, Except.bind, hdecode]
  rfl

theorem loaded_of_text {files : FileSystem} {path text : String} {format : Format} {tree : Tree}
    (hformat : Format.ofPath? path = some format) (h : files path = .ok text.toUTF8)
    (hparse : format.parse text = .ok tree) : loaded files path = .ok tree := by
  rw [loaded, Source.read, hformat]
  simp only [readText_of_text h, bind, Except.bind, Source.tree, hparse]
  rfl

/-- A definition of nothing, and one of an integer. -/
def sampleDirectory : Directory :=
  [(["empty.json"], .file "\x7b\x7d".toUTF8),
    (["id.json"], .file "\x7b\"id\":\x7b\"type\":\"int\"\x7d\x7d".toUTF8)]

/-- The same, and a document that breaks off. -/
def brokenDirectory : Directory := sampleDirectory ++ [(["data.json"], .file "[".toUTF8)]

/-- An alias of the integers. -/
def idSchema : Schema where
  root := [⟨"id", "int", true⟩]
  registry :=
    { bindings := Registry.primitives.bindings ++ [("id", ⟨2, .primitive .int⟩)], nextId := 4 }

theorem idSchema_accepted : schemaAt sampleDirectory.read "id.json" = .ok (.ok idSchema) := by
  have hy : Yields (registerAll [("id", .map [("type", .string "int")])]) Progress.start
      idSchema.root ⟨idSchema.registry, [.primitiveAlias "id" .int]⟩ := rfl
  have hcompile := compile_ok_of_run (by decide) hy (by decide) (by decide)
  exact schemaAt_eq_ok_iff.mpr ⟨_, loaded_of_text rfl rfl rfl, hcompile⟩

theorem empty_refused : (check sampleDirectory.read "empty.json").exit ≠ 0 := by
  intro hzero
  obtain ⟨accepted, h⟩ := check_exit_eq_zero_iff.mp hzero
  have hloaded : loaded sampleDirectory.read "empty.json" = .ok (.map []) :=
    loaded_of_text rfl rfl rfl
  obtain ⟨definition, hdefinition, hcompile⟩ := schemaAt_eq_ok_iff.mp h
  cases hloaded.symm.trans hdefinition
  cases hcompile

/-- A document that breaks off does not change what is said of the schema. With a schema that
is accepted, the missing document is what is told of. -/
theorem sampleDirectory_reports :
    validate brokenDirectory.read "empty.json" "data.json" =
        check sampleDirectory.read "empty.json" ∧
      .failed (.unreadable "data.json" .notFound) ∈
        (validate sampleDirectory.read "id.json" "data.json").events := by
  have hzero : (check sampleDirectory.read "id.json").exit = 0 :=
    check_exit_eq_zero_iff.mpr ⟨idSchema, idSchema_accepted⟩
  have hmissing : loaded sampleDirectory.read "data.json" =
      .error (.unreadable "data.json" .notFound) := rfl
  have hrefused := (check_decides_schema _ _).1 empty_refused brokenDirectory.read "data.json" rfl
  have haccepted := ((check_decides_schema _ _).2 hzero).1 sampleDirectory.read "data.json" rfl
  exact ⟨hrefused, (haccepted.2 _).mpr hmissing⟩

end ComponentSchema
