/-!
# Gaps inside flowing scalars

White space between two words of a plain or quoted scalar. Blanks on one line stay
as they are. Across lines a single line break becomes a space and further breaks
stay; blanks around the breaks vanish.
-/

namespace ComponentSchema.Yaml

/-- The line breaks of a gap: the first one, unless it was escaped, and those after
it in reverse. -/
structure LineBreaks where
  first : Option Char
  more : List Char

/-- White space read since the last word. -/
structure Gap where
  /-- Blanks on the line of the word, in reverse. -/
  blanks : List Char
  /-- The line breaks, if there is one. -/
  breaks : Option LineBreaks

namespace Gap

/-- No white space. -/
def empty : Gap := ⟨[], none⟩

/-- The gap after an escaped line break. -/
def escapedBreak : Gap := ⟨[], some ⟨none, []⟩⟩

/-- Whether there is any white space. -/
def isOpen (gap : Gap) : Bool := !gap.blanks.isEmpty || gap.breaks.isSome

/-- Whether the gap goes over a line break. -/
def isBroken (gap : Gap) : Bool := gap.breaks.isSome

/-- One more blank. -/
def blank (gap : Gap) (c : Char) : Gap :=
  if gap.isBroken then gap else { gap with blanks := c :: gap.blanks }

/-- One more line break. -/
def newline (gap : Gap) (c : Char) : Gap :=
  match gap.breaks with
  | none => ⟨[], some ⟨some c, []⟩⟩
  | some breaks => ⟨[], some { breaks with more := c :: breaks.more }⟩

/-- What a gap between two words reads as. -/
def text (gap : Gap) : List Char :=
  match gap.breaks with
  | none => gap.blanks.reverse
  | some ⟨some '\n', []⟩ => [' ']
  | some ⟨some '\n', more⟩ => more.reverse
  | some ⟨some c, more⟩ => c :: more.reverse
  | some ⟨none, more⟩ => more.reverse

end Gap

end ComponentSchema.Yaml
