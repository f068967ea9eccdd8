import ComponentSchema.Binary64.Nearest
import ComponentSchema.Tree

/-!
# JSON numbers

A number without a fraction and an exponent is an integer if a 64-bit word holds
it; every other number, and minus zero, is a float. The digits of a float are
gathered in a 64-bit word as far as they fit, and the word is scaled by one
rounded power of ten.
-/

namespace ComponentSchema.Json

/-- The value of a decimal digit. -/
def digitValue (c : Char) : Nat := c.toNat - '0'.toNat

/-- Digits of a whole part gathered after `word`, and how many no longer fit. -/
def gatherWhole (word : Nat) : List Char → Nat × Nat
  | [] => (word, 0)
  | c :: rest =>
      if word * 10 + digitValue c < twoPow 64 then gatherWhole (word * 10 + digitValue c) rest
      else (word, rest.length + 1)

/-- Digits of a fraction gathered after `word`, and how many of them fit; the
first one that does not ends the fraction. -/
def gatherFraction (word taken : Nat) : List Char → Nat × Nat
  | [] => (word, taken)
  | c :: rest =>
      if word * 10 + digitValue c < twoPow 64 then
        gatherFraction (word * 10 + digitValue c) (taken + 1) rest
      else (word, taken)

/-- The double nearest to a power of ten. -/
def tenPower (n : Nat) : Binary64 := .ofDecimal false 1 n

/-- The magnitude of `word * 10 ^ exponent`, where the word and the power are
rounded before they are multiplied or divided. Powers beyond `10 ^ 308` are out of
range upwards and are divided out in two steps downwards. -/
def scaledMagnitude? (word : Nat) (exponent : Int) : Option Nat :=
  let start := Binary64.ofDecimal false word 0
  if word = 0 then some 0
  else if 308 < exponent then none
  else if 0 ≤ exponent then
    let product := start.mulMagnitude (tenPower exponent.toNat)
    if product < Binary64.infinityMagnitude then some product else none
  else if -308 ≤ exponent then some (start.divMagnitude (tenPower (-exponent).toNat))
  else if -616 ≤ exponent then
    let reduced := Binary64.ofMagnitude false (start.divMagnitude (tenPower 308))
    some (reduced.divMagnitude (tenPower (-exponent - 308).toNat))
  else some 0

/-- A float from its sign, its gathered digits and its exponent. -/
def float? (negative : Bool) (word : Nat) (exponent : Int) : Option Tree :=
  (scaledMagnitude? word exponent).map fun magnitude => .float (.ofMagnitude negative magnitude)

/-- A number without a fraction and an exponent. -/
def whole? (negative : Bool) (word dropped : Nat) : Option Tree :=
  if dropped ≠ 0 then float? negative word dropped
  else if !negative then some (.int word)
  else if word = 0 ∨ twoPow 63 < word then float? negative word 0
  else some (.int (-word))

/-- The exponent that follows an `e`, if it is well formed. -/
def exponent? (cs : List Char) : Option Int :=
  let (negative, digits) :=
    match cs with
    | '-' :: rest => (true, rest)
    | '+' :: rest => (false, rest)
    | _ => (false, cs)
  if digits.isEmpty || !digits.all Char.isDigit then none
  else
    let n : Int := digits.foldl (fun n c => n * 10 + digitValue c) 0
    some (if negative then -n else n)

/-- A number after its sign: a whole part without needless zeros, a fraction of at
least one digit, an exponent. -/
def unsigned? (negative : Bool) (cs : List Char) : Option Tree :=
  let digits := cs.takeWhile Char.isDigit
  let rest := cs.dropWhile Char.isDigit
  let (word, dropped) := gatherWhole 0 digits
  if digits.isEmpty || (digits.head? = some '0' && digits.length ≠ 1) then none
  else
    match rest with
    | [] => whole? negative word dropped
    | '.' :: rest =>
        let fraction := rest.takeWhile Char.isDigit
        let rest := rest.dropWhile Char.isDigit
        let (word, taken) := gatherFraction word 0 fraction
        let scale : Int := (dropped : Int) - taken
        if fraction.isEmpty then none
        else
          match rest with
          | [] => float? negative word scale
          | e :: rest =>
              if e = 'e' ∨ e = 'E' then (exponent? rest).bind fun n => float? negative word (scale + n)
              else none
    | e :: rest =>
        if e = 'e' ∨ e = 'E' then (exponent? rest).bind fun n => float? negative word (dropped + n)
        else none

/-- The value of a JSON number. -/
def number? : List Char → Option Tree
  | '-' :: rest => unsigned? true rest
  | cs => unsigned? false cs

end ComponentSchema.Json
