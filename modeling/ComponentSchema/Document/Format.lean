import ComponentSchema.Json.Document
import ComponentSchema.Path
import ComponentSchema.Yaml.Conversion
import ComponentSchema.Yaml.Document

/-!
# Document formats

The formats in which a document may be written. The extension of a path chooses one.
-/

namespace ComponentSchema

/-- A format of documents. -/
inductive Format where
  | yaml
  | json
  deriving DecidableEq

/-- Why a text is not a document. -/
inductive ParseError where
  /-- The text does not follow the rules of the format. -/
  | malformed
  /-- The text is well formed, but no document tree can hold it. -/
  | unsupported (cause : Yaml.ConversionError)

/-- What is wrong. How a text breaks the rules of its format is not told. -/
def ParseError.message : ParseError → String
  | .malformed => "<syntax>"
  | .unsupported cause => cause.message

namespace Format

/-- The format that the extension of a path stands for. -/
def ofPath? (path : String) : Option Format :=
  match Path.extension? path with
  | some "yml" | some "yaml" => some .yaml
  | some "json" => some .json
  | _ => none

def name : Format → String
  | .yaml => "YAML"
  | .json => "JSON"

/-- Read a text as a document tree. -/
def parse (format : Format) (text : String) : Except ParseError Tree :=
  match format with
  | .json =>
      match Json.parse? text with
      | some tree => .ok tree
      | none => .error .malformed
  | .yaml =>
      match Yaml.parse? text with
      | some value => value.toTree.mapError .unsupported
      | none => .error .malformed

end Format

end ComponentSchema
