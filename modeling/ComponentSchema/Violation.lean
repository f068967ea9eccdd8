/-!
# Validation errors

What can be wrong with a document, and where.
-/

namespace ComponentSchema

/-- A reason to refuse a document. -/
inductive Violation where
  | expectedType (kind : String)
  | noComponents
  | unexpectedItem (name : String)
  | missingRequiredItem (name : String)
  | unexpectedType (name : String)
  | tooFewItems (min : Nat)
  | tooManyItems (max : Nat)
  | incompleteDefinition
  deriving DecidableEq

/-- The wording of each violation. -/
def Violation.message : Violation → String
  | .expectedType kind => "Expected type: " ++ kind
  | .noComponents => "No components found"
  | .unexpectedItem name => "Unexpected item: \"" ++ name ++ "\""
  | .missingRequiredItem name => "Missing required item: \"" ++ name ++ "\""
  | .unexpectedType name => "Unexpected type: \"" ++ name ++ "\""
  | .tooFewItems min => s!"Too few list items: min={min}"
  | .tooManyItems max => s!"Too many list items: max={max}"
  | .incompleteDefinition => "Incomplete component definition"

/-- A refused document: the rendered location of the offending value, and the
violation. -/
structure ValidationError where
  path : String
  violation : Violation
  deriving DecidableEq

namespace ValidationError

/-- The wording of the violation alone. -/
def message (e : ValidationError) : String := e.violation.message

/-- The line that reports the error. -/
def display (e : ValidationError) : String :=
  "ValidationError - Path: " ++ e.path ++ " - " ++ e.message

end ValidationError

end ComponentSchema
