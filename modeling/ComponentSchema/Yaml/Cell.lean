/-!
# Characters of a YAML text

A text is laid out as cells: characters with their line and column, and with the
number of bytes before them on the line. Every line break but the two Unicode
separators reads as a line feed.
-/

namespace ComponentSchema.Yaml

/-- A character and where it stands. -/
structure Cell where
  char : Char
  line : Nat
  column : Nat
  offset : Nat

/-- The characters that a YAML text may hold. -/
def isAllowed (c : Char) : Bool :=
  let n := c.toNat
  n = 0x09 || n = 0x0A || n = 0x0D || (0x20 ≤ n && n ≤ 0x7E) || n = 0x85
    || (0xA0 ≤ n && n ≤ 0xD7FF) || (0xE000 ≤ n && n ≤ 0xFFFD) || 0x10000 ≤ n

def isBlank (c : Char) : Bool := c = ' ' || c = '\t'

/-- A line break, after line feeds have been made uniform. -/
def isBreak (c : Char) : Bool := c = '\n' || c = '\u2028' || c = '\u2029'

/-- The characters of anchors and of tag handles. -/
def isWordChar (c : Char) : Bool := c.isAlphanum || c = '_' || c = '-'

/-- The mark that may begin a line without counting as content. -/
def byteOrderMark : Char := '\ufeff'

/-- A carriage return and a next-line character are line feeds. -/
def uniform (c : Char) : Char := if c = '\r' ∨ c = '\u0085' then '\n' else c

/-- Lay out characters from a line, a column and an offset on. -/
def layoutFrom (line column offset : Nat) : List Char → List Cell
  | [] => []
  | '\r' :: '\n' :: rest => ⟨'\n', line, column, offset⟩ :: layoutFrom (line + 1) 0 0 rest
  | c :: rest =>
      ⟨uniform c, line, column, offset⟩ ::
        if isBreak (uniform c) then layoutFrom (line + 1) 0 0 rest
        else layoutFrom line (column + 1) (offset + c.utf8Size) rest

/-- The cells of a text, if all its characters are allowed. -/
def layout? (text : String) : Option (List Cell) :=
  let chars := text.toList
  if chars.all isAllowed then some (layoutFrom 0 0 0 chars) else none

/-- Whether a blank, a line break or the end of the text comes next. -/
def atGap : List Cell → Bool
  | [] => true
  | c :: _ => isBlank c.char || isBreak c.char

/-- Whether one of the characters comes next. -/
def startsWithAny (chars : String) : List Cell → Bool
  | [] => false
  | c :: _ => chars.toList.contains c.char

/-- Whether a line starts with three times the character and then a gap. -/
def tripleAtMargin (char : Char) : List Cell → Bool
  | a :: b :: c :: rest =>
      a.column = 0 && a.char = char && b.char = char && c.char = char && atGap rest
  | _ => false

/-- Whether a document marker, `---` or `...`, comes next. -/
def atDocumentMarker (cells : List Cell) : Bool :=
  tripleAtMargin '-' cells || tripleAtMargin '.' cells

/-- Skip blanks. -/
def skipBlanks (cells : List Cell) : List Cell := cells.dropWhile fun c => isBlank c.char

/-- Skip to the next line break. -/
def skipLine (cells : List Cell) : List Cell := cells.dropWhile fun c => !isBreak c.char

/-- Skip blanks, a comment and the line break after them; nothing else may stand on
the rest of the line. -/
def finishLine? (cells : List Cell) : Option (List Cell) :=
  let cells := skipBlanks cells
  let cells := if startsWithAny "#" cells then skipLine cells else cells
  match cells with
  | [] => some []
  | c :: rest => if isBreak c.char then some rest else none

/-- The value of a hexadecimal digit. -/
def hexDigit? (c : Char) : Option Nat :=
  if c.isDigit then some (c.toNat - '0'.toNat)
  else if 'a' ≤ c ∧ c ≤ 'f' then some (c.toNat - 'a'.toNat + 10)
  else if 'A' ≤ c ∧ c ≤ 'F' then some (c.toNat - 'A'.toNat + 10)
  else none

end ComponentSchema.Yaml
