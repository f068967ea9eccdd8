import ComponentSchema.Command.Arguments
import ComponentSchema.Command.Event
import ComponentSchema.Validation

/-!
# Runs of the command

`describeSchema` and `validateFiles` are the two actions, and `run` turns them into
what is printed and an exit code. A schema or a document that is refused is an answer
of an action; only a document that cannot be loaded stops it.
-/

namespace ComponentSchema

/-- An action over files. The events before a failure stay. -/
abbrev Job := ExceptT LoadError (StateM (List Event))

/-- Why the files of an action are refused. -/
inductive Rejection where
  | schema (error : SchemaError)
  | document (error : ValidationError)

/-- The line that tells the reason. -/
def Rejection.display : Rejection → String
  | .schema error => error.display
  | .document error => error.display

namespace Job

/-- Add an event. -/
def log (event : Event) : Job Unit := modify (· ++ [event])

/-- Load the document at a path. -/
def load (files : FileSystem) (path : String) : Job Tree := do
  let source ← (Source.read files path : Except LoadError Source)
  log (.loading source)
  (source.tree : Except LoadError Tree)

/-- Compile a definition, with an event for each registration. -/
def compile (definition : Tree) : Job (Except SchemaError Schema) := do
  let compilation := Compilation.of definition
  modify (· ++ compilation.trace.map .registered)
  match compilation.outcome with
  | .ok schema =>
      log (.compiled schema.size)
      return .ok schema
  | .error e => return .error e

/-- The schema whose definition stands at a path. -/
def loadSchema (files : FileSystem) (path : String) : Job (Except SchemaError Schema) := do
  compile (← load files path)

end Job

/-- A line for each type of a schema, in name order. -/
def Schema.typeLines (schema : Schema) : List String :=
  schema.types.map fun (name, descriptor) => name ++ ": " ++ descriptor.render

/-- The types of the schema at a path. -/
def describeSchema (files : FileSystem) (path : String) : Job (Except SchemaError (List String)) :=
  return (← Job.loadSchema files path).map Schema.typeLines

/-- Validate one file against another. The data is not read unless the schema is
accepted. -/
def validateFiles (files : FileSystem) (schemaPath dataPath : String) :
    Job (Except Rejection Unit) := do
  match ← Job.loadSchema files schemaPath with
  | .error e => return .error (.schema e)
  | .ok schema =>
      Job.log (.schemaAccepted schemaPath schema.size)
      let document ← Job.load files dataPath
      Job.log (.validating schema.size)
      return (schema.validate document).mapError .document

/-- What a run leaves behind. -/
structure Report where
  events : List Event
  printed : List String
  exit : Nat

namespace Report

/-- The lines that are shown after a number of verbosity flags. -/
def lines (report : Report) (verbosity : Nat) : List String :=
  (report.events.filter (Event.isShown verbosity)).map Event.line ++ report.printed

/-- The answer of an action in lines and an exit code. -/
def answer : Except String (List String) → List String × Nat
  | .ok lines => ("valid" :: lines, 0)
  | .error line => ([line], 1)

/-- Carry out an action and report on it. -/
def ofJob (job : Job (Except String (List String))) : Report :=
  match job.run.run [.starting] with
  | (.ok result, events) =>
      let (printed, exit) := answer result
      ⟨events, printed, exit⟩
  | (.error cause, events) => ⟨events ++ [.failed cause], [], 1⟩

/-- The report on the types of a schema. -/
def check (files : FileSystem) (schema : String) : Report :=
  ofJob do return (← describeSchema files schema).mapError SchemaError.display

/-- The report on a document and its schema. -/
def validate (files : FileSystem) (schema data : String) : Report :=
  ofJob do
    return ((← validateFiles files schema data).map fun _ => []).mapError Rejection.display

/-- The report on an action. -/
def ofAction (files : FileSystem) : Action → Report
  | .check schema => check files schema
  | .validate schema data => validate files schema data

end Report

/-- The lines that a command prints and the code that it exits with. A command line
that makes no sense prints nothing. -/
def run (files : FileSystem) (arguments : List String) : List String × Nat :=
  match Request.ofArguments? arguments with
  | none => ([], 2)
  | some .version => (["jysp " ++ version], 0)
  | some (.run verbosity action) =>
      let report := Report.ofAction files action
      (report.lines verbosity, report.exit)

end ComponentSchema
