import ComponentSchema.Yaml.BlockText
import ComponentSchema.Yaml.PlainText
import ComponentSchema.Yaml.Property

/-!
# Reading YAML tokens

Turns the cells of a text into tokens. A key is only known by the colon after it, so
every place where one may start is marked as a candidate, and the marks that a colon
confirms become key tokens in the end. A candidate must be confirmed on its own line
and within 1024 bytes; in block context one that stands at the current indentation
must be confirmed at all.

Anchors are numbered by the count of different names used before them; an alias has
the number that its name was last given.
-/

namespace ComponentSchema.Yaml

/-- A place where a key may start. -/
structure Candidate where
  id : Nat
  required : Bool
  line : Nat
  column : Nat
  offset : Nat

/-- A token, or the mark of a candidate. -/
inductive Piece where
  | token (t : Token)
  | candidate (id : Nat)

/-- The state between two tokens. -/
structure Lexer where
  /-- How many brackets are open. -/
  flow : Nat
  /-- The columns of the open block collections, innermost first. -/
  indents : List Nat
  /-- Whether a key may start here. -/
  keyAllowed : Bool
  /-- The live candidate of each open bracket, innermost first, and of the block. -/
  candidates : List (Option Candidate)
  /-- What has been read, in reverse. -/
  pieces : List Piece
  /-- Candidates that a colon confirmed, and whether a block mapping starts there. -/
  confirmed : List (Nat × Bool)
  nextCandidate : Nat
  /-- The number of each anchor name. -/
  slots : List (String × Nat)

namespace Lexer

/-- Before the first token. -/
def start : Lexer := ⟨0, [], true, [none], [], [], 0, []⟩

/-- One more than the current indentation. -/
def margin (s : Lexer) : Nat :=
  match s.indents with
  | [] => 0
  | indent :: _ => indent + 1

def emit (s : Lexer) (t : Token) : Lexer := { s with pieces := .token t :: s.pieces }

/-- Whether a block collection at this column would be a new one. -/
def isDeeper (s : Lexer) (column : Nat) : Bool := s.flow = 0 && s.margin ≤ column

/-- Open a block collection at a column unless one is open there. -/
def roll (s : Lexer) (column : Nat) (t : Token) : Lexer :=
  if s.isDeeper column then { s.emit t with indents := column :: s.indents } else s

/-- Close the innermost block collections up to one whose column is to be kept. -/
def unrollFrom (keep : Nat → Bool) : List Nat → List Piece → List Nat × List Piece
  | [], pieces => ([], pieces)
  | indent :: outer, pieces =>
      if keep indent then (indent :: outer, pieces)
      else unrollFrom keep outer (.token .blockEnd :: pieces)

/-- Close the block collections deeper than a column. -/
def unroll (s : Lexer) (column : Nat) : Lexer :=
  if s.flow = 0 then
    let (indents, pieces) := unrollFrom (· ≤ column) s.indents s.pieces
    { s with indents, pieces }
  else s

/-- Close all block collections. -/
def unrollAll (s : Lexer) : Lexer :=
  if s.flow = 0 then
    let (indents, pieces) := unrollFrom (fun _ => false) s.indents s.pieces
    { s with indents, pieces }
  else s

/-- Give up the innermost candidate, which must not be a required one. -/
def dropCandidate? (s : Lexer) : Option Lexer :=
  match s.candidates with
  | some candidate :: outer =>
      if candidate.required then none else some { s with candidates := none :: outer }
  | _ => some s

/-- Mark the cell as a candidate if a key may start there. -/
def markCandidate? (s : Lexer) (c : Cell) : Option Lexer :=
  if s.keyAllowed then do
    let s ← s.dropCandidate?
    let required := s.flow = 0 && s.indents.head? = some c.column
    let candidate : Candidate := ⟨s.nextCandidate, required, c.line, c.column, c.offset⟩
    return { s with
      candidates := some candidate :: s.candidates.drop 1
      pieces := .candidate candidate.id :: s.pieces
      nextCandidate := s.nextCandidate + 1 }
  else some s

/-- Give up every candidate that can no longer be confirmed at the cell. -/
def dropStale? (s : Lexer) (c : Cell) : Option Lexer := do
  let candidates ← s.candidates.mapM fun candidate =>
    match candidate with
    | some k =>
        if k.line < c.line || k.offset + 1024 < c.offset then
          if k.required then none else some none
        else some (some k)
    | none => some none
  return { s with candidates }

/-- Skip blanks, comments and line breaks. A tab is not skipped where it could be
taken for indentation. -/
def skip (s : Lexer) (inComment : Bool) : List Cell → Lexer × List Cell
  | [] => (s, [])
  | c :: rest =>
      if isBreak c.char then
        skip (if s.flow = 0 then { s with keyAllowed := true } else s) false rest
      else if inComment then skip s true rest
      else if c.char = ' ' || (c.char = '\t' && (s.flow ≠ 0 || !s.keyAllowed)) then skip s false rest
      else if c.char = byteOrderMark && c.column = 0 then skip s false rest
      else if c.char = '#' then skip s true rest
      else (s, c :: rest)

/-- A directive or a document marker ends all block collections. -/
def toMargin? (s : Lexer) : Option Lexer := do
  let s ← s.unrollAll.dropCandidate?
  return { s with keyAllowed := false }

/-- An opening bracket. -/
def openFlow? (s : Lexer) (c : Cell) (t : Token) : Option Lexer := do
  let s ← s.markCandidate? c
  return { s.emit t with flow := s.flow + 1, candidates := none :: s.candidates, keyAllowed := true }

/-- A closing bracket. -/
def closeFlow? (s : Lexer) (t : Token) : Option Lexer := do
  let s ← s.dropCandidate?
  let s := if s.flow = 0 then s else { s with flow := s.flow - 1, candidates := s.candidates.drop 1 }
  return { s.emit t with keyAllowed := false }

/-- A comma between brackets. -/
def flowEntry? (s : Lexer) : Option Lexer := do
  let s ← s.dropCandidate?
  return { s.emit .flowEntry with keyAllowed := true }

/-- The dash of a block sequence. -/
def blockEntry? (s : Lexer) (c : Cell) : Option Lexer := do
  if s.flow = 0 && !s.keyAllowed then failure
  let s ← (s.roll c.column .blockSequenceStart).dropCandidate?
  return { s.emit .blockEntry with keyAllowed := true }

/-- The question mark before a key. -/
def key? (s : Lexer) (c : Cell) : Option Lexer := do
  if s.flow = 0 && !s.keyAllowed then failure
  let s ← (s.roll c.column .blockMappingStart).dropCandidate?
  return { s.emit .key with keyAllowed := s.flow = 0 }

/-- The colon before a value. It confirms the innermost candidate, if there is one. -/
def value? (s : Lexer) (c : Cell) : Option Lexer :=
  match s.candidates with
  | some candidate :: outer =>
      let opens := s.isDeeper candidate.column
      let s := { s with
        candidates := none :: outer
        confirmed := (candidate.id, opens) :: s.confirmed
        indents := if opens then candidate.column :: s.indents else s.indents
        keyAllowed := false }
      some (s.emit .value)
  | _ =>
      if s.flow = 0 && !s.keyAllowed then none
      else
        let s := s.roll c.column .blockMappingStart
        some { s.emit .value with keyAllowed := s.flow = 0 }

/-- A scalar, an anchor, an alias or a tag: a key may start with it but not right
after it. -/
def content? (s : Lexer) (c : Cell) : Option Lexer := do
  let s ← s.markCandidate? c
  return { s with keyAllowed := false }

/-- An anchor gets the number of names used so far. -/
def anchor (s : Lexer) (name : String) : Lexer :=
  let slot := s.slots.length
  let slots := (s.slots.filter fun entry => entry.1 ≠ name) ++ [(name, slot)]
  { s.emit (.anchor slot) with slots }

/-- An alias must have been anchored before. -/
def alias? (s : Lexer) (name : String) : Option Lexer := do
  let (_, slot) ← s.slots.find? fun entry => entry.1 = name
  return s.emit (.alias slot)

/-- Whether a plain scalar may start with the character. -/
def startsPlain (s : Lexer) (c : Char) (rest : List Cell) : Bool :=
  !(isBlank c || "-?:,[]\x7b\x7d#&*!|>'\"%@`".toList.contains c)
    || (c = '-' && !(match rest with | d :: _ => isBlank d.char | [] => false))
    || (s.flow = 0 && (c = '?' || c = ':') && !atGap rest)

/-- Read a scalar with `read` and emit it. -/
def scalar? (s : Lexer) (read : Option (String × List Cell)) : Option (Lexer × List Cell) := do
  let (text, rest) ← read
  return (s.emit (.scalar text false), rest)

/-- Read the token that starts at the first cell. -/
def fetch? (s : Lexer) (c : Cell) (rest : List Cell) : Option (Lexer × List Cell) := do
  let cells := c :: rest
  let inFlow := s.flow ≠ 0
  if c.column = 0 && c.char = '%' then
    let s ← s.toMargin?
    let (t, rest) ← directive? rest
    return (s.emit t, rest)
  else if tripleAtMargin '-' cells then
    return ((← s.toMargin?).emit .documentStart, rest.drop 2)
  else if tripleAtMargin '.' cells then
    return ((← s.toMargin?).emit .documentEnd, rest.drop 2)
  else if c.char = '[' then return (← s.openFlow? c .flowSequenceStart, rest)
  else if c.char = '\x7b' then return (← s.openFlow? c .flowMappingStart, rest)
  else if c.char = ']' then return (← s.closeFlow? .flowSequenceEnd, rest)
  else if c.char = '\x7d' then return (← s.closeFlow? .flowMappingEnd, rest)
  else if c.char = ',' then return (← s.flowEntry?, rest)
  else if c.char = '-' && atGap rest then return (← s.blockEntry? c, rest)
  else if c.char = '?' && (inFlow || atGap rest) then return (← s.key? c, rest)
  else if c.char = ':' && (inFlow || atGap rest) then return (← s.value? c, rest)
  else if c.char = '*' then
    let s ← s.content? c
    let (name, rest) ← anchorName? rest
    return (← s.alias? name, rest)
  else if c.char = '&' then
    let s ← s.content? c
    let (name, rest) ← anchorName? rest
    return (s.anchor name, rest)
  else if c.char = '!' then
    let s ← s.content? c
    let (t, rest) ← tag? inFlow cells
    return (s.emit t, rest)
  else if (c.char = '|' || c.char = '>') && !inFlow then
    let s ← s.dropCandidate?
    { s with keyAllowed := true }.scalar? (block? (c.char = '>') s.margin rest)
  else if c.char = '\'' then (← s.content? c).scalar? (quoted? false rest)
  else if c.char = '"' then (← s.content? c).scalar? (quoted? true rest)
  else if s.startsPlain c.char rest then
    let s ← s.content? c
    let (text, gap, rest) ← plain? inFlow s.margin cells
    return ({ s.emit (.scalar text true) with keyAllowed := gap.isBroken }, rest)
  else failure

/-- The tokens of a piece, once all colons are known. -/
def pieceTokens (confirmed : List (Nat × Bool)) : Piece → List Token
  | .token t => [t]
  | .candidate id =>
      match confirmed.lookup id with
      | none => []
      | some opens => if opens then [.blockMappingStart, .key] else [.key]

/-- All tokens, at the end of the text. -/
def finish? (s : Lexer) : Option (List Token) := do
  let s ← s.unrollAll.dropCandidate?
  return s.pieces.reverse.flatMap (pieceTokens s.confirmed)

/-- Read on. Every token takes at least one cell, so that one round for each cell
and one for the end suffice. -/
def run? : Nat → Lexer → List Cell → Option (List Token)
  | 0, _, _ => none
  | rounds + 1, s, cells =>
      match s.skip false cells with
      | (s, []) => s.finish?
      | (s, c :: rest) =>
          match (s.dropStale? c).bind fun s => (s.unroll c.column).fetch? c rest with
          | none => none
          | some (s, rest) => run? rounds s rest

end Lexer

/-- The tokens of a text. -/
def tokens? (text : String) : Option (List Token) := do
  let cells ← layout? text
  Lexer.start.run? (cells.length + 1) cells

end ComponentSchema.Yaml
