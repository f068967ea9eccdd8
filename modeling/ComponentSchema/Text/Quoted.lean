import ComponentSchema.Text.GraphemeExtend
import ComponentSchema.Text.Unprintable

/-!
# Quoted text

A text between double quotes, on one line and with nothing invisible in it: what has
a short escape is written by it, and what cannot be seen alone by its code point.
-/

namespace ComponentSchema.Text

/-- A character by its code point in braces. -/
def codePointEscape (c : Char) : List Char :=
  "\\u\x7b".toList ++ Nat.toDigits 16 c.toNat ++ ['\x7d']

/-- A character as it stands between double quotes. -/
def quotedChar (c : Char) : List Char :=
  if c = '\x00' then ['\\', '0']
  else if c = '\t' then ['\\', 't']
  else if c = '\r' then ['\\', 'r']
  else if c = '\n' then ['\\', 'n']
  else if c = '"' || c = '\\' then ['\\', c]
  else if graphemeExtend.contains c || unprintable.contains c then codePointEscape c
  else [c]

/-- A text between double quotes. -/
def quoted (text : String) : String :=
  String.ofList ('"' :: text.toList.flatMap quotedChar ++ ['"'])

end ComponentSchema.Text
