import ComponentSchema.Document.Format
import ComponentSchema.FileSystem

/-!
# Loading documents

A document is found by its path, which also tells its format. Loading fails at the
first of three steps that fails: the choice of the format, reading and parsing.
-/

namespace ComponentSchema

/-- Why a document cannot be loaded. -/
inductive LoadError where
  | unsupportedFormat (path : String)
  | unreadable (path : String) (cause : ReadFailure)
  | invalid (path : String) (format : Format) (cause : ParseError)

/-- What is wrong, from the path to the cause. -/
def LoadError.message : LoadError → String
  | .unsupportedFormat path => "unsupported file format: " ++ path
  | .unreadable path cause => "cannot read " ++ path ++ ": " ++ cause.message
  | .invalid path format cause =>
      "invalid " ++ format.name ++ " document: " ++ path ++ ": " ++ cause.message

/-- A document that has been read and not yet parsed. -/
structure Source where
  path : String
  format : Format
  text : String

namespace Source

/-- Read the document at a path. -/
def read (files : FileSystem) (path : String) : Except LoadError Source :=
  match Format.ofPath? path with
  | none => .error (.unsupportedFormat path)
  | some format =>
      match files.readText path with
      | .ok text => .ok ⟨path, format, text⟩
      | .error cause => .error (.unreadable path cause)

/-- The tree of the document. -/
def tree (source : Source) : Except LoadError Tree :=
  (source.format.parse source.text).mapError (.invalid source.path source.format)

/-- The size of the text in bytes. -/
def size (source : Source) : Nat := source.text.utf8ByteSize

end Source

end ComponentSchema
