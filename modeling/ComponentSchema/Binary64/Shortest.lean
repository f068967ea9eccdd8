import ComponentSchema.Binary64.Nearest

/-!
# The shortest decimal of a double

Of the decimals that read back as a given double, one with the fewest digits is
chosen, and of two such decimals the nearer one. A `Layout` then decides how the
digits are written.
-/

namespace ComponentSchema

/-- The decimal `digits * 10 ^ exponent`. -/
structure Decimal where
  digits : Nat
  exponent : Int
  deriving DecidableEq

/-- The power of ten just above a grid of `n + 1` digits is written with one
digit. -/
def Decimal.carry (n : Nat) (d : Decimal) : Decimal :=
  if d.digits = tenPow (n + 1) then ⟨1, d.exponent + (n + 1)⟩ else d

namespace Binary64

/-- Whether a decimal reads as the magnitude `bits`. -/
def readsAs (magnitude : Nat) (d : Decimal) : Bool :=
  decimalMagnitude d.digits d.exponent = magnitude

/-- `num / den` compared with a power of ten from above: `10 ^ power ≤ num / den`. -/
def tenPowerLe (power : Int) (num den : Nat) : Bool :=
  if 0 ≤ power then den * tenPow power.toNat ≤ num else den ≤ num * tenPow (-power).toNat

/-- `⌊log₁₀ (num / den)⌋` for positive `num` and `den`. The binary logarithm
times 1233 / 4096 is off by at most one. -/
def quotientLog10 (num den : Nat) : Int :=
  let guess := quotientLog2 num den * 1233 / 4096
  if tenPowerLe (guess + 1) num den then guess + 1
  else if tenPowerLe guess num den then guess
  else guess - 1

/-- The two neighbours of `num / den` among the multiples of `10 ^ power`, the
nearer one first and the even one first when both are equally near. -/
def gridNeighbours (power : Int) (num den : Nat) : List Decimal :=
  let (num, den) :=
    if 0 ≤ power then (num, den * tenPow power.toNat) else (num * tenPow (-power).toNat, den)
  let below := num / den
  if roundHalfEven num den = below then [⟨below, power⟩, ⟨below + 1, power⟩]
  else [⟨below + 1, power⟩, ⟨below, power⟩]

/-- The decimal with the fewest digits that reads back as the finite, non-zero
magnitude of `x`, tried with 1 to 17 digits. -/
def shortest (x : Binary64) : Decimal :=
  let (num, den) := x.ratio
  let top := quotientLog10 num den
  let attempt (n : Nat) : Option Decimal :=
    ((gridNeighbours (top - n) num den).find? (readsAs x.magnitude)).map (Decimal.carry n)
  ((List.range 17).findSome? attempt).getD ⟨x.significand, x.exponent⟩

/-- How a finite double is written: its digits stand around a decimal point while
the point's position counted from the first digit lies in a window, and with an
exponent otherwise. -/
structure Layout where
  /-- The position must be greater than this one. -/
  low : Int
  /-- The position must not be greater than this one. -/
  high : Int

/-- A decimal in a layout. Positional text always has a digit on both sides of
the point; exponent text has a point only between digits. -/
def Layout.write (layout : Layout) (d : Decimal) : String :=
  let digits := Nat.toDigits 10 d.digits
  let position : Int := d.exponent + digits.length
  if layout.low < position ∧ position ≤ layout.high then
    if 0 ≤ d.exponent then
      String.ofList (digits ++ List.replicate d.exponent.toNat '0') ++ ".0"
    else if 0 < position then
      String.ofList (digits.take position.toNat) ++ "." ++ String.ofList (digits.drop position.toNat)
    else
      "0." ++ String.ofList (List.replicate (-position).toNat '0' ++ digits)
  else
    let tail := if digits.length ≤ 1 then "" else "." ++ String.ofList (digits.drop 1)
    String.ofList (digits.take 1) ++ tail ++ "e" ++ toString (position - 1)

/-- A finite double in a layout, with its sign. -/
def write (layout : Layout) (x : Binary64) : String :=
  let sign := if x.isNegative then "-" else ""
  if x.magnitude = 0 then sign ++ "0.0" else sign ++ layout.write x.shortest

end Binary64

end ComponentSchema
