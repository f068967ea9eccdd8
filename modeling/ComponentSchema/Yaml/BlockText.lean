import ComponentSchema.Yaml.Cell

/-!
# Block scalars

Indented lines after `|` or `>`. The first line with content fixes the indentation
unless the header gives it. In the folded form a single line break between two lines
that do not start with a blank becomes a space. The header also says what happens to
the line breaks at the end.
-/

namespace ComponentSchema.Yaml

/-- What happens to the final line breaks. -/
inductive Chomping where
  /-- All of them go. -/
  | strip
  /-- The break of the last line stays. -/
  | clip
  /-- All of them stay. -/
  | keep
  deriving DecidableEq

/-- The part of the header after the indicator. -/
structure BlockHeader where
  chomping : Chomping
  /-- Columns beyond the surrounding indentation, if given. -/
  increment : Option Nat

/-- A chomping mark. -/
def chomping? : List Cell → Option (Chomping × List Cell)
  | c :: rest =>
      if c.char = '+' then some (.keep, rest)
      else if c.char = '-' then some (.strip, rest)
      else none
  | [] => none

/-- An indentation digit, which must not be zero. -/
def increment? : List Cell → Option (Option Nat × List Cell)
  | c :: rest =>
      if c.char = '0' then none
      else if c.char.isDigit then some (some (c.char.toNat - '0'.toNat), rest)
      else some (none, c :: rest)
  | [] => some (none, [])

/-- The header up to the end of its line. The two marks may come in either order. -/
def blockHeader? (cells : List Cell) : Option (BlockHeader × List Cell) := do
  match chomping? cells with
  | some (chomping, cells) =>
      let (increment, cells) ← increment? cells
      return (⟨chomping, increment⟩, ← finishLine? cells)
  | none =>
      let (increment, cells) ← increment? cells
      let (chomping, cells) :=
        if increment.isSome then (chomping? cells).getD (.clip, cells) else (.clip, cells)
      return (⟨chomping, increment⟩, ← finishLine? cells)

/-- A block scalar that is being read. -/
structure Block where
  /-- The column of its lines, once it is known. -/
  indent : Option Nat
  /-- The furthest column reached while it is not. -/
  deepest : Nat
  /-- The text so far, in reverse. -/
  text : List Char
  /-- The break that ended the last line with content. -/
  lineEnd : Option Char
  /-- The breaks of the empty lines after it, in reverse. -/
  empties : List Char
  /-- Whether the last line with content started with a blank. -/
  afterBlank : Bool
  /-- Whether the reader is in a line's content. -/
  inLine : Bool

namespace Block

/-- Whether a column lies in the indentation. -/
def isIndentation (b : Block) (column : Nat) : Bool :=
  match b.indent with
  | none => true
  | some indent => column < indent

/-- Start a line with content whose first character is `c`. -/
def startLine (b : Block) (folded : Bool) (indent : Nat) (c : Char) : Block :=
  let folds := folded && b.lineEnd = some '\n' && !b.afterBlank && !isBlank c
  let joint :=
    if folds then (if b.empties.isEmpty then [' '] else [])
    else b.lineEnd.toList
  { b with
    indent := some indent
    text := c :: (b.empties ++ joint ++ b.text)
    lineEnd := none
    empties := []
    afterBlank := isBlank c
    inLine := true }

/-- The whole text. -/
def finish (b : Block) (chomping : Chomping) : String :=
  let text := if chomping = .strip then b.text else b.lineEnd.toList ++ b.text
  let text := if chomping = .keep then b.empties ++ text else text
  String.ofList text.reverse

end Block

/-- Read on; `least` is the smallest indentation there can be. -/
def blockFrom? (folded : Bool) (least : Nat) (b : Block) :
    List Cell → Option (Block × List Cell)
  | [] => some (b, [])
  | c :: rest =>
      if b.inLine then
        if isBreak c.char then
          blockFrom? folded least { b with lineEnd := some c.char, inLine := false } rest
        else blockFrom? folded least { b with text := c.char :: b.text } rest
      else if c.char = ' ' && b.isIndentation c.column then blockFrom? folded least b rest
      else if c.char = '\t' && b.isIndentation c.column then none
      else
        let deepest := max b.deepest c.column
        if isBreak c.char then
          blockFrom? folded least { b with deepest, empties := c.char :: b.empties } rest
        else
          let indent := b.indent.getD (max deepest least)
          if c.column = indent then
            blockFrom? folded least (b.startLine folded indent c.char) rest
          else some (b, c :: rest)

/-- Read a block scalar after its indicator; `margin` is one more than the
surrounding indentation. -/
def block? (folded : Bool) (margin : Nat) (cells : List Cell) : Option (String × List Cell) := do
  let (header, cells) ← blockHeader? cells
  let indent := header.increment.map fun n => margin - 1 + n
  let start : Block := ⟨indent, 0, [], none, [], false, false⟩
  let (b, rest) ← blockFrom? folded (max margin 1) start cells
  return (b.finish header.chomping, rest)

end ComponentSchema.Yaml
