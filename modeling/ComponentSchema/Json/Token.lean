import ComponentSchema.Json.Number

/-!
# JSON tokens

The text is read one character at a time. Between tokens there is white space; a
string ends at its closing quote, and a run of letters, digits, signs and points is
one word, which must be a number or one of the three names.
-/

namespace ComponentSchema.Json

/-- A token of JSON text; scalars carry their value. -/
inductive Token where
  | listOpen
  | listClose
  | mapOpen
  | mapClose
  | colon
  | comma
  | string (text : String)
  | scalar (value : Tree)

/-- Where in a string literal the reader stands. -/
inductive Quote where
  /-- Between characters. -/
  | plain
  /-- After a backslash. -/
  | escape
  /-- In a `\u` escape with digits left to read; a leading surrogate may precede it. -/
  | hex (left code : Nat) (lead : Option Nat)
  /-- After a leading surrogate, which a second `\u` escape must follow. -/
  | second (lead : Nat)
  /-- After the backslash of that second escape. -/
  | secondEscape (lead : Nat)

/-- What the reader is in the middle of; gathered characters are in reverse. -/
inductive Mode where
  | between
  | word (gathered : List Char)
  | string (gathered : List Char) (quote : Quote)

/-- The white space of JSON. -/
def isSpace (c : Char) : Bool := c = ' ' || c = '\t' || c = '\n' || c = '\r'

/-- Characters that words are made of. -/
def isWordChar (c : Char) : Bool := c.isAlphanum || c = '-' || c = '+' || c = '.'

/-- The value of a word. -/
def wordValue? (word : List Char) : Option Tree :=
  if word = "null".toList then some .null
  else if word = "true".toList then some (.bool true)
  else if word = "false".toList then some (.bool false)
  else number? word

/-- The character of a one-letter escape. -/
def escapedChar? : Char → Option Char
  | '"' => some '"'
  | '\\' => some '\\'
  | '/' => some '/'
  | 'b' => some '\x08'
  | 'f' => some '\x0c'
  | 'n' => some '\n'
  | 'r' => some '\r'
  | 't' => some '\t'
  | _ => none

/-- The value of a hexadecimal digit. -/
def hexValue? (c : Char) : Option Nat :=
  if c.isDigit then some (c.toNat - '0'.toNat)
  else if 'a' ≤ c ∧ c ≤ 'f' then some (c.toNat - 'a'.toNat + 10)
  else if 'A' ≤ c ∧ c ≤ 'F' then some (c.toNat - 'A'.toNat + 10)
  else none

/-- Continue a string after a complete `\u` escape. A surrogate counts only as one
half of a pair. -/
def finishHex (gathered : List Char) (code : Nat) : Option Nat → Option Mode
  | none =>
      if 0xDC00 ≤ code ∧ code ≤ 0xDFFF then none
      else if 0xD800 ≤ code ∧ code ≤ 0xDBFF then some (.string gathered (.second code))
      else some (.string (Char.ofNat code :: gathered) .plain)
  | some lead =>
      if 0xDC00 ≤ code ∧ code ≤ 0xDFFF then
        let pair := 0x10000 + (lead - 0xD800) * 0x400 + (code - 0xDC00)
        some (.string (Char.ofNat pair :: gathered) .plain)
      else none

/-- One more character of a string that does not end here. -/
def stringStep (gathered : List Char) (c : Char) : Quote → Option Mode
  | .plain =>
      if c = '\\' then some (.string gathered .escape)
      else if c.toNat < 0x20 then none
      else some (.string (c :: gathered) .plain)
  | .escape =>
      if c = 'u' then some (.string gathered (.hex 4 0 none))
      else (escapedChar? c).map fun e => .string (e :: gathered) .plain
  | .hex left code lead =>
      (hexValue? c).bind fun digit =>
        if left ≤ 1 then finishHex gathered (code * 16 + digit) lead
        else some (.string gathered (.hex (left - 1) (code * 16 + digit) lead))
  | .second lead => if c = '\\' then some (.string gathered (.secondEscape lead)) else none
  | .secondEscape lead =>
      if c = 'u' then some (.string gathered (.hex 4 0 (some lead))) else none

/-- The token of a punctuation character. -/
def punctuation? : Char → Option Token
  | '[' => some .listOpen
  | ']' => some .listClose
  | '\x7b' => some .mapOpen
  | '\x7d' => some .mapClose
  | ':' => some .colon
  | ',' => some .comma
  | _ => none

/-- One character outside strings and words: the token it makes, if any, and what
follows. -/
def betweenStep (c : Char) : Option (List Token × Mode) :=
  if isSpace c then some ([], .between)
  else if c = '"' then some ([], .string [] .plain)
  else if isWordChar c then some ([], .word [c])
  else (punctuation? c).map fun token => ([token], .between)

/-- One character: the tokens that it completes, and what follows. -/
def step : Mode → Char → Option (List Token × Mode)
  | .between, c => betweenStep c
  | .word gathered, c =>
      if isWordChar c then some ([], .word (c :: gathered))
      else do
        let value ← wordValue? gathered.reverse
        let (tokens, mode) ← betweenStep c
        return (.scalar value :: tokens, mode)
  | .string gathered .plain, c =>
      if c = '"' then some ([.string (String.ofList gathered.reverse)], .between)
      else (stringStep gathered c .plain).map fun mode => ([], mode)
  | .string gathered quote, c => (stringStep gathered c quote).map fun mode => ([], mode)

/-- The tokens of the rest of a text, after those already `found` in reverse. -/
def tokensFrom? (found : List Token) : Mode → List Char → Option (List Token)
  | .between, [] => some found.reverse
  | .word gathered, [] =>
      (wordValue? gathered.reverse).map fun value => (.scalar value :: found).reverse
  | .string _ _, [] => none
  | mode, c :: rest =>
      match step mode c with
      | none => none
      | some (tokens, mode) => tokensFrom? (tokens.reverse ++ found) mode rest

/-- The tokens of a text. -/
def tokens? (text : String) : Option (List Token) := tokensFrom? [] .between text.toList

end ComponentSchema.Json
