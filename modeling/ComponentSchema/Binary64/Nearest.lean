import ComponentSchema.Binary64.Basic

/-!
# The nearest double

A quotient of natural numbers is rounded to the nearest double, a half going to
the neighbour with the even significand. Decimals are read exactly this way, and
so are products and quotients of doubles.
-/

namespace ComponentSchema.Binary64

/-- The quotient rounded to the nearest integer, a half going to the even one. -/
def roundHalfEven (num den : Nat) : Nat :=
  let twice := 2 * (num % den)
  if den < twice || (twice = den && num / den % 2 = 1) then num / den + 1 else num / den

/-- `⌊log₂ (num / den)⌋` for positive `num` and `den`. -/
def quotientLog2 (num den : Nat) : Int :=
  let guess : Int := (num.log2 : Int) - den.log2
  let below :=
    if 0 ≤ guess then num < den * twoPow guess.toNat else num * twoPow (-guess).toNat < den
  if below then guess - 1 else guess

/-- The magnitude of the double nearest to `num / den`, for a positive `den`.
The rounded significand is added to its scaled exponent, so that a carry out of
the significand raises the exponent; from the infinity on it stays there. -/
def nearestMagnitude (num den : Nat) : Nat :=
  if num = 0 then 0
  else
    let scale := max (quotientLog2 num den - 52) (-1074)
    let rounded :=
      if 0 ≤ scale then roundHalfEven num (den * twoPow scale.toNat)
      else roundHalfEven (num * twoPow (-scale).toNat) den
    min infinityMagnitude ((scale + 1074).toNat * twoPow 52 + rounded)

/-- The magnitude nearest to `digits * 10 ^ exponent`. The two shortcuts answer
without the power of ten where it cannot matter: from `10 ^ 400` on every
positive number is infinite, and `2 ^ (-1080)` rounds to zero. -/
def decimalMagnitude (digits : Nat) (exponent : Int) : Nat :=
  if digits = 0 then 0
  else if 400 < exponent then infinityMagnitude
  else if exponent < 0 ∧ (digits.log2 : Int) + 1081 < 3 * -exponent then 0
  else if 0 ≤ exponent then nearestMagnitude (digits * tenPow exponent.toNat) 1
  else nearestMagnitude digits (tenPow (-exponent).toNat)

/-- The double nearest to `digits * 10 ^ exponent`, with the given sign. -/
def ofDecimal (negative : Bool) (digits : Nat) (exponent : Int) : Binary64 :=
  ofMagnitude negative (decimalMagnitude digits exponent)

/-- The rounded product of the magnitudes of two finite doubles. -/
def mulMagnitude (x y : Binary64) : Nat :=
  nearestMagnitude (x.ratio.1 * y.ratio.1) (x.ratio.2 * y.ratio.2)

/-- The rounded quotient of the magnitudes of two finite doubles, the second
not zero. -/
def divMagnitude (x y : Binary64) : Nat :=
  nearestMagnitude (x.ratio.1 * y.ratio.2) (x.ratio.2 * y.ratio.1)

end ComponentSchema.Binary64
