/-!
# Tags

A tag in full is a sequence of bytes. Most tags are ASCII text, but a tag may be
written with escapes for any bytes that are grouped like those of characters, and so
need not be the text of anything.
-/

namespace ComponentSchema.Yaml

/-- A tag, or a part of one. -/
abbrev Tag := List UInt8

namespace Tag

/-- The bytes of a text. -/
def ofString (text : String) : Tag := text.toUTF8.data.toList

/-- The text of a tag, if it is one. -/
def text? (tag : Tag) : Option String := String.fromUTF8? ⟨tag.toArray⟩

/-- A tag ends before a zero byte, whatever is written after it. -/
def beforeZero (tag : Tag) : Tag := tag.takeWhile (· ≠ 0)

/-- The tag of a standard type. -/
def standard (name : String) : Tag := ofString ("tag:yaml.org,2002:" ++ name)

/-- Whether a tag is one of the document's own: it starts with a mark. -/
def isLocal (tag : Tag) : Bool := tag.head? = some 0x21

/-- A name without its mark, unless it is nothing but the mark. -/
def bareName (name : String) : String :=
  match name.toList with
  | '!' :: c :: rest => String.ofList (c :: rest)
  | _ => name

/-- The name that a tag of the document's own gives. -/
def localName? (tag : Tag) : Option String :=
  if tag.isLocal then tag.text?.map bareName else none

end Tag

end ComponentSchema.Yaml
