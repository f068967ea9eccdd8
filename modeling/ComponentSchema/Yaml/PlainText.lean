import ComponentSchema.Yaml.Cell
import ComponentSchema.Yaml.Gap

/-!
# Plain scalars

Words without quotes, possibly over several lines. A plain scalar ends before a
colon that a gap follows, before a comment, a document marker or a line that is not
indented to the margin, and inside brackets before any bracket or comma.
-/

namespace ComponentSchema.Yaml

/-- The characters that end a plain scalar inside brackets. -/
def flowIndicators : String := ",[]\x7b\x7d"

/-- Whether a plain scalar ends before a word that begins here, after a gap. -/
def endsAfterGap (flow : Bool) (margin : Nat) (cells : List Cell) : Bool :=
  startsWithAny "#" cells || atDocumentMarker cells
    || match cells with
      | [] => true
      | c :: _ => !flow && c.column < margin

/-- Whether a plain scalar ends before this character. -/
def endsBefore (flow : Bool) (c : Char) (rest : List Cell) : Bool :=
  (c = ':' && atGap rest) || (flow && flowIndicators.toList.contains c)

/-- Read on after the characters `text`, in reverse, and a gap. The result is the
text, the gap after it and the remaining cells. -/
def plainFrom? (flow : Bool) (margin : Nat) (text : List Char) (gap : Gap) :
    List Cell → Option (String × Gap × List Cell)
  | [] => some (String.ofList text.reverse, gap, [])
  | c :: rest =>
      if isBlank c.char then
        if gap.isBroken && c.column < margin && c.char = '\t' then none
        else plainFrom? flow margin text (gap.blank c.char) rest
      else if isBreak c.char then plainFrom? flow margin text (gap.newline c.char) rest
      else if gap.isOpen && endsAfterGap flow margin (c :: rest) then
        some (String.ofList text.reverse, gap, c :: rest)
      else if flow && c.char = ':' && startsWithAny (flowIndicators ++ "?") rest then none
      else if endsBefore flow c.char rest then
        some (String.ofList text.reverse, gap, c :: rest)
      else plainFrom? flow margin (c.char :: (gap.text.reverse ++ text)) .empty rest

/-- Read a plain scalar. -/
def plain? (flow : Bool) (margin : Nat) (cells : List Cell) : Option (String × Gap × List Cell) :=
  plainFrom? flow margin [] .empty cells

end ComponentSchema.Yaml
