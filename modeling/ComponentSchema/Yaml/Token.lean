import ComponentSchema.Yaml.Tag

/-!
# YAML tokens

Indentation is already made explicit in the tokens, and so are the keys that are
only recognised by the colon after them. Anchors are numbers: see `Lexer`.
-/

namespace ComponentSchema.Yaml

/-- A token of a YAML text. -/
inductive Token where
  | versionDirective (major minor : Nat)
  | tagDirective (handle : String) (expansion : Tag)
  | documentStart
  | documentEnd
  | blockSequenceStart
  | blockMappingStart
  | blockEnd
  | flowSequenceStart
  | flowSequenceEnd
  | flowMappingStart
  | flowMappingEnd
  | blockEntry
  | flowEntry
  | key
  | value
  | anchor (slot : Nat)
  | alias (slot : Nat)
  | tag (handle : String) (suffix : Tag)
  | scalar (text : String) (plain : Bool)
  deriving DecidableEq

end ComponentSchema.Yaml
