import ComponentSchema.Yaml.Cell
import ComponentSchema.Yaml.Gap

/-!
# Quoted scalars

In single quotes a quote is written twice and nothing else is special. In double
quotes a backslash starts an escape, and before a line break it joins the lines.
-/

namespace ComponentSchema.Yaml

/-- What an escape stands for. -/
inductive Escape where
  | char (c : Char)
  /-- A character number in so many hexadecimal digits. -/
  | code (digits : Nat)

/-- The escape of a letter after a backslash. -/
def escape? : Char → Option Escape
  | '0' => some (.char '\x00')
  | 'a' => some (.char '\x07')
  | 'b' => some (.char '\x08')
  | 't' => some (.char '\t')
  | '\t' => some (.char '\t')
  | 'n' => some (.char '\n')
  | 'v' => some (.char '\x0b')
  | 'f' => some (.char '\x0c')
  | 'r' => some (.char '\r')
  | 'e' => some (.char '\x1b')
  | ' ' => some (.char ' ')
  | '"' => some (.char '"')
  | '/' => some (.char '/')
  | '\\' => some (.char '\\')
  | 'N' => some (.char '\u0085')
  | '_' => some (.char '\u00a0')
  | 'L' => some (.char '\u2028')
  | 'P' => some (.char '\u2029')
  | 'x' => some (.code 2)
  | 'u' => some (.code 4)
  | 'U' => some (.code 8)
  | _ => none

/-- The character with a number, if there is one. -/
def charOf? (code : Nat) : Option Char :=
  if h : code.isValidChar then some (Char.ofNatAux code h) else none

/-- Read on after the characters `text`, in reverse, and a gap; `code` holds the
hexadecimal digits still to come of an escape and its number so far. -/
def quotedFrom? (double : Bool) (code : Option (Nat × Nat)) (text : List Char) (gap : Gap) :
    List Cell → Option (String × List Cell)
  | [] => none
  | c :: rest =>
      match code with
      | some (left, number) =>
          match hexDigit? c.char with
          | none => none
          | some digit =>
              if 1 < left then
                quotedFrom? double (some (left - 1, number * 16 + digit)) text gap rest
              else
                match charOf? (number * 16 + digit) with
                | none => none
                | some char => quotedFrom? double none (char :: text) gap rest
      | none =>
          if atDocumentMarker (c :: rest) then none
          else if isBlank c.char then quotedFrom? double none text (gap.blank c.char) rest
          else if isBreak c.char then quotedFrom? double none text (gap.newline c.char) rest
          else
            let text := gap.text.reverse ++ text
            if double then
              if c.char = '"' then some (String.ofList text.reverse, rest)
              else if c.char = '\\' then
                match rest with
                | [] => none
                | e :: rest =>
                    if isBreak e.char then quotedFrom? double none text .escapedBreak rest
                    else
                      match escape? e.char with
                      | none => none
                      | some (.char char) => quotedFrom? double none (char :: text) .empty rest
                      | some (.code digits) => quotedFrom? double (some (digits, 0)) text .empty rest
              else quotedFrom? double none (c.char :: text) .empty rest
            else if c.char = '\'' then
              match rest with
              | [] => some (String.ofList text.reverse, [])
              | e :: rest =>
                  if e.char = '\'' then quotedFrom? double none ('\'' :: text) .empty rest
                  else some (String.ofList text.reverse, e :: rest)
            else quotedFrom? double none (c.char :: text) .empty rest

/-- Read a quoted scalar after its opening quote. -/
def quoted? (double : Bool) (cells : List Cell) : Option (String × List Cell) :=
  quotedFrom? double none [] .empty cells

end ComponentSchema.Yaml
