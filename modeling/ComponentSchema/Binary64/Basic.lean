/-!
# Double-precision numbers as words

A double is kept as its 64-bit word: one sign bit, eleven exponent bits and
fifty-two fraction bits. Everything said about it here is plain arithmetic on
natural numbers.
-/

namespace ComponentSchema

/-- A power of two. -/
def twoPow (n : Nat) : Nat := Nat.pow 2 n

/-- A power of ten. -/
def tenPow (n : Nat) : Nat := Nat.pow 10 n

/-- A double-precision number, by its word. -/
structure Binary64 where
  bits : UInt64
  deriving DecidableEq, Inhabited

namespace Binary64

/-- The word without its sign bit. -/
def magnitude (x : Binary64) : Nat := x.bits.toNat % twoPow 63

/-- Whether the sign bit is set. -/
def isNegative (x : Binary64) : Bool := twoPow 63 ≤ x.bits.toNat

/-- The eleven exponent bits. -/
def exponentField (x : Binary64) : Nat := x.magnitude / twoPow 52

/-- The fifty-two fraction bits. -/
def fraction (x : Binary64) : Nat := x.magnitude % twoPow 52

/-- Neither an infinity nor a NaN. -/
def isFinite (x : Binary64) : Bool := x.exponentField ≠ 2047

/-- Not a number. -/
def isNaN (x : Binary64) : Bool := !x.isFinite && x.fraction ≠ 0

/-- The magnitude of the infinities. -/
def infinityMagnitude : Nat := 2047 * twoPow 52

/-- A word from its sign and the other sixty-three bits. -/
def ofMagnitude (negative : Bool) (magnitude : Nat) : Binary64 :=
  ⟨UInt64.ofNat ((if negative then twoPow 63 else 0) + magnitude)⟩

/-- Positive infinity, or negative infinity. -/
def infinity (negative : Bool) : Binary64 := ofMagnitude negative infinityMagnitude

/-- The positive quiet NaN. -/
def nan : Binary64 := ofMagnitude false (infinityMagnitude + twoPow 51)

/-- A finite magnitude is `significand * 2 ^ exponent`: the significand has the
implicit leading bit of a normal number. -/
def significand (x : Binary64) : Nat :=
  if x.exponentField = 0 then x.fraction else twoPow 52 + x.fraction

/-- The power of two that the significand of a finite magnitude is scaled by. -/
def exponent (x : Binary64) : Int := (max x.exponentField 1 : Nat) - 1075

/-- A finite magnitude as a numerator and a positive denominator. -/
def ratio (x : Binary64) : Nat × Nat :=
  if 0 ≤ x.exponent then (x.significand * twoPow x.exponent.toNat, 1)
  else (x.significand, twoPow (-x.exponent).toNat)

/-- Numeric equality, under which the zeros are equal and so are any two NaNs. -/
def sameNumber (x y : Binary64) : Bool :=
  x = y || (x.isNaN && y.isNaN) || (x.magnitude = 0 && y.magnitude = 0)

/-- The word in sixteen lower-case hexadecimal digits. -/
def hex (x : Binary64) : String :=
  let digits := Nat.toDigits 16 x.bits.toNat
  String.ofList (List.replicate (16 - digits.length) '0' ++ digits)

end Binary64

end ComponentSchema
