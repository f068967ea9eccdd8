/-!
# Text for terminals

A terminal acts on some control characters. Where a text comes from outside, those
are written out, so that showing the text has no other effect.
-/

namespace ComponentSchema.Text

/-- The old controls that a terminal acts on and that do not lay out text: bell,
backspace, form feed, escape and delete. -/
def actingControls : List (Char × String) :=
  [('\x07', "\\x07"), ('\x08', "\\x08"), ('\x0c', "\\x0c"), ('\x1b', "\\x1b"), ('\x7f', "\\x7f")]

/-- Whether a character is one of the controls from U+0080 to U+009F. -/
def isUpperControl (c : Char) : Bool := 0x80 ≤ c.toNat && c.toNat ≤ 0x9F

/-- A character that no terminal acts on. -/
def inertChar (c : Char) : List Char :=
  match actingControls.lookup c with
  | some text => text.toList
  | none =>
      if isUpperControl c then "\\u\x7b".toList ++ Nat.toDigits 16 c.toNat ++ ['\x7d'] else [c]

/-- A text that no terminal acts on. -/
def inert (text : String) : String := String.ofList (text.toList.flatMap inertChar)

end ComponentSchema.Text
