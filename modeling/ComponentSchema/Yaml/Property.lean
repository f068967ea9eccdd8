import ComponentSchema.Yaml.QuotedText
import ComponentSchema.Yaml.Token

/-!
# Anchors, tags and directives

Tokens that do not depend on indentation. A tag is `!suffix`, `!handle!suffix` or
`!<text>`; its characters may be escaped by `%` and two hexadecimal digits for each
byte. A directive fills a line that starts with `%`.
-/

namespace ComponentSchema.Yaml

/-- The leading cells whose characters satisfy `p`, as text, and the others. -/
def spanChars (p : Char → Bool) (cells : List Cell) : String × List Cell :=
  (String.ofList ((cells.takeWhile fun c => p c.char).map Cell.char),
    cells.dropWhile fun c => p c.char)

/-- The name of an anchor or an alias after its indicator. -/
def anchorName? (cells : List Cell) : Option (String × List Cell) :=
  let (name, rest) := spanChars isWordChar cells
  if name.isEmpty || !(atGap rest || startsWithAny "?:,]\x7d%@`" rest) then none
  else some (name, rest)

/-- The characters of a tag; the verbatim form also allows commas and square
brackets. -/
def isTagChar (verbatim : Bool) (c : Char) : Bool :=
  isWordChar c || ";/?:@&=+$.!~*'()".toList.contains c
    || (verbatim && ",[]".toList.contains c)

/-- The number of bytes that follow the first byte of a character. -/
def bytesAfter? (octet : Nat) : Option Nat :=
  if octet < 0x80 then some 0
  else if octet / 0x20 = 6 then some 1
  else if octet / 0x10 = 14 then some 2
  else if octet / 0x08 = 30 then some 3
  else none

/-- Tag characters after the bytes `found`, in reverse; `left` bytes of an escaped
character are still to come. -/
def tagFrom? (verbatim : Bool) (left : Nat) (found : Tag) : List Cell → Option (Tag × List Cell)
  | [] => if left = 0 then some (found.reverse, []) else none
  | c :: rest =>
      if c.char = '%' then
        match rest with
        | a :: b :: rest =>
            match hexDigit? a.char, hexDigit? b.char with
            | some high, some low =>
                let octet := high * 16 + low
                let next :=
                  if left = 0 then bytesAfter? octet
                  else if octet / 0x40 = 2 then some (left - 1)
                  else none
                match next with
                | none => none
                | some left => tagFrom? verbatim left (octet.toUInt8 :: found) rest
            | _, _ => none
        | _ => none
      else if left ≠ 0 then none
      else if isTagChar verbatim c.char then
        tagFrom? verbatim 0 (c.char.toNat.toUInt8 :: found) rest
      else some (found.reverse, c :: rest)

/-- A tag, or a part of one, of at least one character. -/
def tagPart? (verbatim : Bool) (cells : List Cell) : Option (Tag × List Cell) := do
  let (tag, rest) ← tagFrom? verbatim 0 [] cells
  if tag.isEmpty then failure
  return (tag.beforeZero, rest)

/-- A tag handle: a mark, word characters, and a second mark if there is one. -/
def handle? : List Cell → Option (String × List Cell)
  | c :: rest =>
      if c.char = '!' then
        let (word, rest) := spanChars isWordChar rest
        match rest with
        | d :: rest' => if d.char = '!' then some ("!" ++ word ++ "!", rest') else some ("!" ++ word, rest)
        | [] => some ("!" ++ word, [])
      else none
  | [] => none

/-- A handle that ends with its own mark. -/
def isFullHandle (handle : String) : Bool :=
  1 < handle.length && handle.toList.getLast? = some '!'

/-- The handle and the suffix of a tag. The tag `!` alone has no handle. -/
def tagParts? (cells : List Cell) : Option ((String × Tag) × List Cell) := do
  match cells with
  | mark :: angle :: rest =>
      if mark.char = '!' ∧ angle.char = '<' then
        let (suffix, rest) ← tagPart? true rest
        match rest with
        | close :: rest => if close.char = '>' then return (("", suffix), rest) else failure
        | [] => failure
  | _ => pure ()
  let (handle, rest) ← handle? cells
  if isFullHandle handle then
    let (suffix, rest) ← tagPart? false rest
    return ((handle, suffix), rest)
  else
    let word := Tag.ofString (String.ofList (handle.toList.drop 1))
    let (more, rest) ← tagFrom? false 0 [] rest
    let suffix := Tag.beforeZero (word ++ more)
    return (if suffix.isEmpty then ("", Tag.ofString "!") else ("!", suffix), rest)

/-- A tag, which a gap must follow; inside brackets a comma may. -/
def tag? (flow : Bool) (cells : List Cell) : Option (Token × List Cell) := do
  let ((handle, suffix), rest) ← tagParts? cells
  if atGap rest || (flow && startsWithAny "," rest) then return (.tag handle suffix, rest)
  else failure

/-- A number of a version, of at most nine digits. -/
def versionNumber? (cells : List Cell) : Option (Nat × List Cell) := do
  let (digits, rest) := spanChars Char.isDigit cells
  if digits.isEmpty || 9 < digits.length then failure
  return (digits.toList.foldl (fun n c => n * 10 + (c.toNat - '0'.toNat)) 0, rest)

/-- The version after `%YAML`. -/
def versionDirective? (cells : List Cell) : Option (Token × List Cell) := do
  let (major, rest) ← versionNumber? (skipBlanks cells)
  match rest with
  | dot :: rest =>
      if dot.char = '.' then
        let (minor, rest) ← versionNumber? rest
        return (.versionDirective major minor, rest)
      else failure
  | [] => failure

/-- The handle and its expansion after `%TAG`. -/
def tagDirective? (cells : List Cell) : Option (Token × List Cell) := do
  let (handle, rest) ← handle? (skipBlanks cells)
  unless handle = "!" || isFullHandle handle do failure
  match rest with
  | c :: _ => unless isBlank c.char do failure
  | [] => failure
  let (expansion, rest) ← tagPart? true (skipBlanks rest)
  unless atGap rest do failure
  return (.tagDirective handle expansion, rest)

/-- A directive line after its mark. -/
def directive? (cells : List Cell) : Option (Token × List Cell) := do
  let (name, rest) := spanChars isWordChar cells
  unless atGap rest do failure
  let (token, rest) ←
    if name = "YAML" then versionDirective? rest
    else if name = "TAG" then tagDirective? rest
    else none
  return (token, ← finishLine? rest)

end ComponentSchema.Yaml
