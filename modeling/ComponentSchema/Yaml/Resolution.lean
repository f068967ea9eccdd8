import ComponentSchema.Tree
import ComponentSchema.Yaml.Cell
import ComponentSchema.Yaml.Value

/-!
# Scalar resolution

The value that the text of a scalar stands for. A plain scalar is tried as null, as
a truth value, as an integer and as a float, and is a string if it is none of them.
A tag of the standard kind asks for one type.
-/

namespace ComponentSchema.Yaml.Resolution

/-- The texts of the absent value, the empty text apart. -/
def isNull (text : String) : Bool := ["~", "null", "Null", "NULL"].contains text

/-- The truth value of a text. -/
def bool? (text : String) : Option Bool :=
  if ["true", "True", "TRUE"].contains text then some true
  else if ["false", "False", "FALSE"].contains text then some false
  else none

/-- A number in a base, from its digits, of which there must be one. -/
def digitsIn? (base : Nat) (digits : List Char) : Option Nat :=
  if digits.isEmpty then none
  else digits.foldlM (fun n c => do
    let d ← hexDigit? c
    if d < base then some (n * base + d) else none) 0

/-- A sign that is written, and what follows it. -/
def splitSign : List Char → Option Char × List Char
  | '+' :: rest => (some '+', rest)
  | '-' :: rest => (some '-', rest)
  | chars => (none, chars)

/-- Two or more decimal digits of which the first is zero: such a text is no number. -/
def isPadded (text : String) : Bool :=
  match (splitSign text.toList).2 with
  | '0' :: c :: rest => (c :: rest).all Char.isDigit
  | _ => false

/-- The magnitude of an integer. A base other than ten is named by a letter after a
zero. -/
def magnitude? : List Char → Option Nat
  | '0' :: 'x' :: digits => digitsIn? 16 digits
  | '0' :: 'o' :: digits => digitsIn? 8 digits
  | '0' :: 'b' :: digits => digitsIn? 2 digits
  | digits => digitsIn? 10 digits

/-- The integer that a text writes, however large. -/
def int? (text : String) : Option Int :=
  if isPadded text then none
  else
    let (sign, rest) := splitSign text.toList
    (magnitude? rest).map fun n => if sign = some '-' then -(n : Int) else n

/-- Integers that need more bits than a tree has but no more than 128 are refused;
still larger ones are not taken for integers at all. -/
def isRefused (n : Int) : Bool :=
  !Tree.intFits n && -(twoPow 127 : Int) ≤ n && n < (twoPow 128 : Int)

/-- The integer that a text stands for. The outer option is a refusal. -/
def intValue? (text : String) : Option (Option Int) :=
  match int? text with
  | none => some none
  | some n => if isRefused n then none else some (if Tree.intFits n then some n else none)

/-- The exponent after a decimal, zero if nothing is left. -/
def exponent? : List Char → Option Int
  | [] => some 0
  | mark :: rest =>
      if mark = 'e' ∨ mark = 'E' then
        let (sign, digits) := splitSign rest
        if digits.all Char.isDigit then
          (digitsIn? 10 digits).map fun n => if sign = some '-' then -(n : Int) else n
        else none
      else none

/-- A decimal with an optional point and exponent, as its digits and the power of ten
that scales them. -/
def decimal? (chars : List Char) : Option (Nat × Int) := do
  let whole := chars.takeWhile Char.isDigit
  let rest := chars.dropWhile Char.isDigit
  let (places, rest) :=
    match rest with
    | '.' :: rest => (rest.takeWhile Char.isDigit, rest.dropWhile Char.isDigit)
    | rest => ([], rest)
  let digits ← digitsIn? 10 (whole ++ places)
  return (digits, (← exponent? rest) - places.length)

/-- The float that a text stands for, if it is finite or named. -/
def float? (text : String) : Option Binary64 :=
  let (sign, rest) := splitSign text.toList
  let name := String.ofList rest
  if [".inf", ".Inf", ".INF"].contains name then some (.infinity (sign = some '-'))
  else if [".nan", ".NaN", ".NAN"].contains text then some .nan
  else
    match decimal? rest with
    | none => none
    | some (digits, exponent) =>
        let x := Binary64.ofDecimal (sign = some '-') digits exponent
        if x.isFinite then some x else none

/-- The value of a plain scalar without a tag. -/
def plain? (text : String) : Option Value :=
  if text.isEmpty || isNull text then some .null
  else
    match bool? text with
    | some b => some (.bool b)
    | none =>
        match intValue? text with
        | none => none
        | some (some n) => some (.number (.ofInt n))
        | some none =>
            match if isPadded text then none else float? text with
            | some x => some (.number (.float x))
            | none => some (.string text)

/-- The value of a scalar with a tag. A tag of the document's own leaves the type
open; any other tag that asks for no type makes the scalar a string. -/
def tagged? (tag : Tag) (text : String) (plain : Bool) : Option Value :=
  if tag = .standard "bool" then (bool? text).map .bool
  else if tag = .standard "int" then
    match intValue? text with
    | some (some n) => some (.number (.ofInt n))
    | _ => none
  else if tag = .standard "float" then (float? text).map fun x => .number (.float x)
  else if tag = .standard "null" then if isNull text then some .null else none
  else if tag.isLocal && plain then plain? text
  else some (.string text)

/-- The value of a scalar. -/
def scalar? (tag : Option Tag) (text : String) (plain : Bool) : Option Value :=
  match tag with
  | some tag => tagged? tag text plain
  | none => if plain then plain? text else some (.string text)

end ComponentSchema.Yaml.Resolution
