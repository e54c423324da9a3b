/-
Reading decimal digits as doubles.

A decimal is a whole significand times a power of ten.  `exactDecimal?` rounds its
value once.  `scaledDecimal?` first rounds the significand to a double and then
multiplies or divides by the double nearest the power of ten, rounding again at
each step; both agree while the significand is below `2 ^ 53` and the power is at
most `10 ^ 22`, and may differ in the last bit beyond that.
-/
import SchemaBundle.Decimal.Double

namespace SchemaBundle

namespace Double

/-- The double nearest `significand * 10 ^ exponent`; `none` on overflow.  Exponents
far outside the range of doubles are cut off, which changes no result. -/
def exactDecimal? (negative : Bool) (significand : Nat) (exponent : Int) : Option Double :=
  if significand = 0 then some (zero negative)
  else
    let digits := (significand.log2 + 1 : Nat)
    if 400 < exponent then none
    else if exponent < -400 - (digits : Int) then some (zero negative)
    else if 0 ≤ exponent then ofRatio? negative (significand * Nat.pow 10 exponent.toNat) 1
    else ofRatio? negative significand (Nat.pow 10 (-exponent).toNat)

/-- The double nearest a power of ten, for powers up to `10 ^ 308`. -/
def powerOfTen? (n : Nat) : Option Double :=
  if n ≤ 308 then ofRatio? false (Nat.pow 10 n) 1 else none

/-- Divide by `10 ^ n` in steps of at most `10 ^ 308`, rounding each quotient. -/
def divideDown? (x : Double) (n : Nat) : Option Double :=
  if x.isZero then some x
  else if n ≤ 308 then (powerOfTen? n).bind x.div?
  else ((powerOfTen? 308).bind x.div?).bind fun y => divideDown? y (n - 308)
termination_by n
decreasing_by omega

/-- The significand as a double, scaled by a power of ten with a rounding at each
step; `none` when it overflows. -/
def scaledDecimal? (negative : Bool) (significand : Nat) (exponent : Int) : Option Double := do
  let start ← ofRatio? false significand 1
  let scaled ←
    if 0 ≤ exponent then
      if start.isZero then some start
      else (powerOfTen? exponent.toNat).bind start.mul?
    else divideDown? start (-exponent).toNat
  return scaled.withSign negative

end Double

end SchemaBundle
