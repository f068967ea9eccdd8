import ComponentSchema.Entries
import ComponentSchema.Yaml.Token

/-!
# YAML nodes

The tokens of a document form one node. Nothing is resolved yet: an alias is still
an alias and a scalar is still a text, but every tag is written in full.

A node reads the nodes inside it through the reader one level deeper, so the only
recursion is on the number of levels.
-/

namespace ComponentSchema.Yaml

/-- What may stand before the content of a node. -/
structure Properties where
  anchor : Option Nat
  tag : Option Tag

/-- No anchor and no tag. -/
def Properties.none : Properties := ⟨.none, .none⟩

/-- Whether there is an anchor or a tag. -/
def Properties.isSome (p : Properties) : Bool := p.anchor.isSome || p.tag.isSome

/-- A node of a document. -/
inductive Node where
  | alias (slot : Nat)
  | scalar (properties : Properties) (text : String) (plain : Bool)
  | sequence (properties : Properties) (items : List Node)
  | mapping (properties : Properties) (entries : List (Node × Node))

namespace Node

/-- The node that stands where none is written. -/
def empty : Node := .scalar .none "" true

/-- Where a node stands. -/
inductive Site where
  /-- Between brackets. -/
  | flow
  /-- The document itself or an item of a block sequence. -/
  | item
  /-- A key or a value of a block mapping: a sequence may start there without being
  indented. -/
  | member
  deriving DecidableEq

/-- The expansions of tag handles. -/
abbrev TagTable := List (String × Tag)

/-- The handles that need no directive. -/
def commonTags : TagTable := [("!", .ofString "!"), ("!!", .standard "")]

/-- A tag in full. One without a handle is already. -/
def fullTag? (tags : TagTable) (handle : String) (suffix : Tag) : Option Tag :=
  if handle.isEmpty then some suffix else (Entries.get? tags handle).map (· ++ suffix)

/-- Takes tokens from the front. -/
abbrev Reader := StateT (List Token) Option

namespace Reader

/-- The next token, which stays. -/
def peek : Reader (Option Token) := return (← get).head?

/-- Drop a token. -/
def skip : Reader Unit := modify (List.drop 1)

/-- Whether the next token is one of the given ones. -/
def nextIn (tokens : List Token) : Reader Bool := return (← peek).any tokens.contains

/-- Take a token if it comes next. -/
def accept (token : Token) : Reader Bool := do
  if ← nextIn [token] then skip; return true else return false

/-- Take a token that must come next. -/
def expect (token : Token) : Reader Unit := do unless ← accept token do failure

/-- The results of a step until it gives none, in at most the given number of
rounds. -/
def collectWithin {α : Type} (step : Reader (Option α)) : Nat → Reader (List α)
  | 0 => failure
  | rounds + 1 => do
      match ← step with
      | none => return []
      | some a => return a :: (← collectWithin step rounds)

/-- The results of a step until it gives none. Every result takes a token, so one
round for each token and one for the end suffice. -/
def collect {α : Type} (step : Reader (Option α)) : Reader (List α) := do
  collectWithin step ((← get).length + 1)

/-- The empty node before one of the `ends`, and what `read` reads otherwise. -/
def orEmpty (ends : List Token) (read : Reader Node) : Reader Node := do
  if ← nextIn ends then return empty else read

/-- The value after a colon; without a colon it is empty. -/
def memberValue (ends : List Token) (read : Reader Node) : Reader Node := do
  if ← accept .value then orEmpty ends read else return empty

/-- An anchor, if one comes next. -/
def anchor : Reader (Option Nat) := do
  match ← peek with
  | some (.anchor slot) => skip; return some slot
  | _ => return none

/-- A tag in full, if one comes next. -/
def tag (tags : TagTable) : Reader (Option Tag) := do
  match ← peek with
  | some (.tag handle suffix) => skip; return some (← fullTag? tags handle suffix)
  | _ => return none

/-- At most one anchor and one tag, in either order. -/
def properties (tags : TagTable) : Reader Properties := do
  match ← anchor with
  | some slot => return ⟨some slot, ← tag tags⟩
  | none =>
      match ← tag tags with
      | some t => return ⟨← anchor, some t⟩
      | none => return .none

variable (child : Site → Reader Node)

/-- The items of a block sequence, up to its end. -/
def blockItems : Reader (List Node) := collect do
  if ← accept .blockEnd then return none
  expect .blockEntry
  return some (← orEmpty [.blockEntry, .blockEnd] (child .item))

/-- The items of a sequence that is not indented: it ends before anything that is
not an item. -/
def indentlessItems : Reader (List Node) := collect do
  if ← accept .blockEntry then
    return some (← orEmpty [.blockEntry, .key, .value, .blockEnd] (child .item))
  else return none

/-- The entries of a block mapping, up to its end. -/
def blockEntries : Reader (List (Node × Node)) := collect do
  if ← accept .blockEnd then return none
  expect .key
  let ends : List Token := [.key, .value, .blockEnd]
  let key ← orEmpty ends (child .member)
  return some (key, ← memberValue ends (child .member))

/-- Things between brackets with commas between them; a comma may stand before the
closing bracket too. -/
def flowList {α : Type} (close : Token) (read : Reader α) : Reader (List α) := do
  if ← accept close then return []
  let first ← read
  let others ← collect do
    if ← accept close then return none
    expect .flowEntry
    if ← accept close then return none
    return some (← read)
  return first :: others

/-- The key of a pair in a flow sequence. A key that is not there takes the token
that shows so. -/
def pairKey : Reader Node := do
  if ← nextIn [.value, .flowEntry, .flowSequenceEnd] then skip; return empty
  else child .flow

/-- An item of a flow sequence. A pair is a mapping with one entry. -/
def flowItem : Reader Node := do
  if ← accept .key then
    let key ← pairKey child
    let value ← memberValue [.flowEntry, .flowSequenceEnd] (child .flow)
    return .mapping .none [(key, value)]
  else child .flow

/-- An entry of a flow mapping. A node without a colon is a key without a value. -/
def flowEntry : Reader (Node × Node) := do
  if ← accept .key then
    let key ← orEmpty [.value, .flowEntry, .flowMappingEnd] (child .flow)
    return (key, ← memberValue [.flowEntry, .flowMappingEnd] (child .flow))
  else return (← child .flow, empty)

/-- The content of a node at a site, after its properties. -/
def content (site : Site) (p : Properties) : Reader Node := do
  match ← peek with
  | some (.scalar text plain) => skip; return .scalar p text plain
  | some .flowSequenceStart =>
      skip; return .sequence p (← flowList .flowSequenceEnd (flowItem child))
  | some .flowMappingStart =>
      skip; return .mapping p (← flowList .flowMappingEnd (flowEntry child))
  | next =>
      if next = some .blockEntry ∧ site = .member then
        return .sequence p (← indentlessItems child)
      else if next = some .blockSequenceStart ∧ site ≠ .flow then
        skip; return .sequence p (← blockItems child)
      else if next = some .blockMappingStart ∧ site ≠ .flow then
        skip; return .mapping p (← blockEntries child)
      else if p.isSome then return .scalar p "" true
      else failure

end Reader

/-- Read a node with at most the given number of levels. -/
def read (tags : TagTable) : Nat → Site → Reader Node
  | 0, _ => failure
  | levels + 1, site => do
      match ← Reader.peek with
      | some (.alias slot) => Reader.skip; return .alias slot
      | _ => Reader.content (read tags levels) site (← Reader.properties tags)

/-- A node reads the nodes inside it after a token of its own, so there are no more
levels than tokens. -/
def readAll (tags : TagTable) : Reader Node := do
  read tags ((← get).length + 1) .item

/-- The directives before a document: at most one version, which must be known, and
at most one expansion for each handle. -/
def directives? (version : Bool) (tags : TagTable) : List Token → Option (TagTable × List Token)
  | .versionDirective major minor :: rest =>
      if version || major ≠ 1 || (minor ≠ 1 && minor ≠ 2) then none
      else directives? true tags rest
  | .tagDirective handle expansion :: rest =>
      if Entries.contains tags handle then none
      else directives? version (tags ++ [(handle, expansion)]) rest
  | rest => some (tags, rest)

/-- Whether a token begins a document that must have a start marker. -/
def isExplicitStart : Token → Bool
  | .versionDirective .. | .tagDirective .. | .documentStart => true
  | _ => false

/-- The node of a document after its start marker. -/
def afterMarker (tags : TagTable) : Reader Node := do
  match ← Reader.peek with
  | none | some .documentEnd => return empty
  | some token => if isExplicitStart token then return empty else readAll tags

/-- The node of the only document in the tokens. -/
def ofTokens? (tokens : List Token) : Option Node := do
  let (node, rest) ←
    match tokens with
    | [] => some (empty, [])
    | first :: _ =>
        if isExplicitStart first then do
          let (tags, rest) ← directives? false [] tokens
          match rest with
          | .documentStart :: rest => (afterMarker (tags ++ commonTags)).run rest
          | _ => none
        else (readAll commonTags).run tokens
  if rest.all (· = .documentEnd) then return node else failure

end Node

end ComponentSchema.Yaml
