import ComponentSchema.Document.Load
import ComponentSchema.Registration
import ComponentSchema.Text.Quoted
import ComponentSchema.Text.Terminal

/-!
# Log events

What a run tells about itself. Each event has a level, and the verbosity decides
which levels are shown.
-/

namespace ComponentSchema

/-- The importance of an event. -/
inductive Level where
  | error
  | warn
  | info
  | debug
  | trace
  deriving DecidableEq

namespace Level

def name : Level → String
  | .error => "ERROR"
  | .warn => "WARN"
  | .info => "INFO"
  | .debug => "DEBUG"
  | .trace => "TRACE"

/-- The place of a level, the most important one first. -/
def rank : Level → Nat
  | .error => 0
  | .warn => 1
  | .info => 2
  | .debug => 3
  | .trace => 4

/-- The least important level that is shown after a number of verbosity flags. -/
def shownAt : Nat → Level
  | 0 => .warn
  | 1 => .info
  | 2 => .debug
  | _ => .trace

end Level

/-- Something a run tells about itself. -/
inductive Event where
  | starting
  | loading (source : Source)
  | registered (registration : Registration)
  | compiled (types : Nat)
  | schemaAccepted (path : String) (types : Nat)
  | validating (types : Nat)
  | failed (cause : LoadError)

/-- The version of the program. -/
def version : String := "0.1.0"

namespace Event

def level : Event → Level
  | .starting | .loading _ | .registered _ | .compiled _ => .debug
  | .schemaAccepted .. => .info
  | .validating _ => .trace
  | .failed _ => .error

/-- A registration in words. -/
def registrationText : Registration → String
  | .primitiveAlias name kind =>
      "registered primitive alias type_name=" ++ Text.quoted name
        ++ " kind=" ++ Text.quoted kind.name
  | .alias name target =>
      "registered type alias type_name=" ++ Text.quoted name
        ++ " aliased=" ++ Text.quoted target
  | .component name kind =>
      "registered component type type_name=" ++ Text.quoted name
        ++ " kind=" ++ Text.quoted kind

/-- The event in words, with its data. -/
def text : Event → String
  | .starting => "jysp starting version=" ++ Text.quoted version
  | .loading source =>
      "loading document path=" ++ source.path ++ " format=" ++ source.format.name
        ++ " bytes=" ++ toString source.size
  | .registered registration => registrationText registration
  | .compiled types => "compiled schema types=" ++ toString types
  | .schemaAccepted path types =>
      "schema compiled schema=" ++ path ++ " types=" ++ toString types
  | .validating types => "validating document types=" ++ toString types
  | .failed cause => Text.inert cause.message

/-- The event as a line of the log. -/
def line (event : Event) : String := event.level.name ++ " " ++ event.text

/-- Whether the event is shown after a number of verbosity flags. -/
def isShown (verbosity : Nat) (event : Event) : Bool :=
  event.level.rank ≤ (Level.shownAt verbosity).rank

end Event

end ComponentSchema
