/-
Finite binary floating-point numbers as exact values.

A `Double` is a sign, a whole significand below `2 ^ 53` and a power of two.  The
proof field keeps the pair in the one form that the 64-bit format has for its
value, so two doubles are the same record exactly when they have the same sign
and the same value.  Everything here is exact arithmetic on natural numbers: a
quotient is rounded once, to the nearest double, a half going to the even
significand, and a quotient beyond the largest double has no result.
-/

namespace SchemaBundle

/-- The pairs of significand and exponent that the 64-bit format stores: the
leading bit is in place unless the exponent is already the smallest. -/
def Double.IsNormal (significand : Nat) (exponent : Int) : Prop :=
  significand < Nat.pow 2 53 ∧ -1074 ≤ exponent ∧ exponent ≤ 971 ∧
    (Nat.pow 2 52 ≤ significand ∨ exponent = -1074)

instance (significand : Nat) (exponent : Int) :
    Decidable (Double.IsNormal significand exponent) := by
  unfold Double.IsNormal; infer_instance

/-- A finite double: `± significand * 2 ^ exponent`. -/
structure Double where
  /-- Whether the sign bit is set; zero has both signs. -/
  negative : Bool
  /-- The whole significand. -/
  significand : Nat
  /-- The power of two the significand is scaled by. -/
  exponent : Int
  /-- The pair is in stored form. -/
  normal : Double.IsNormal significand exponent
  deriving DecidableEq

namespace Double

/-- Zero with the given sign. -/
def zero (negative : Bool) : Double :=
  ⟨negative, 0, -1074, by decide⟩

instance : Inhabited Double := ⟨zero false⟩

/-- The value has no digits. -/
def isZero (x : Double) : Bool :=
  x.significand == 0

/-- Numeric equality: the two zeros are equal. -/
def sameValue (x y : Double) : Bool :=
  x.significand == y.significand && x.exponent == y.exponent &&
    (x.negative == y.negative || x.isZero)

/-- The double with these parts, when they are in stored form. -/
def ofParts? (negative : Bool) (significand : Nat) (exponent : Int) : Option Double :=
  if h : IsNormal significand exponent then some ⟨negative, significand, exponent, h⟩ else none

/-- The quotient rounded to a whole number, a half going to the even neighbour. -/
def roundHalfEven (num den : Nat) : Nat :=
  let below := num / den
  let rest := num % den
  if 2 * rest > den || (2 * rest == den && below % 2 == 1) then below + 1 else below

/-- Numerator and denominator of `num / (den * 2 ^ exponent)`. -/
def scaleDown (num den : Nat) (exponent : Int) : Nat × Nat :=
  if 0 ≤ exponent then (num, den * Nat.pow 2 exponent.toNat)
  else (num * Nat.pow 2 (-exponent).toNat, den)

/-- The nearest double to `num / den`; `none` when it is beyond the largest one.

The first exponent tried leaves a significand below `2 ^ 54`, so one more step up
suffices to bring it below `2 ^ 53`. -/
def ofRatio? (negative : Bool) (num den : Nat) : Option Double :=
  if num = 0 then some (zero negative)
  else
    let first : Int := max (-1074) ((num.log2 : Int) - (den.log2 : Int) - 53)
    let (n, d) := scaleDown num den first
    let exponent := if n / d < Nat.pow 2 53 then first else first + 1
    let (n, d) := scaleDown num den exponent
    let significand := roundHalfEven n d
    if significand = Nat.pow 2 53 then ofParts? negative (Nat.pow 2 52) (exponent + 1)
    else ofParts? negative significand exponent

/-- The magnitude as a fraction. -/
def magnitude (x : Double) : Nat × Nat :=
  if 0 ≤ x.exponent then (x.significand * Nat.pow 2 x.exponent.toNat, 1)
  else (x.significand, Nat.pow 2 (-x.exponent).toNat)

/-- The product rounded to the nearest double. -/
def mul? (x y : Double) : Option Double :=
  let (xn, xd) := x.magnitude
  let (yn, yd) := y.magnitude
  ofRatio? (x.negative != y.negative) (xn * yn) (xd * yd)

/-- The quotient by a divisor other than zero, rounded to the nearest double. -/
def div? (x y : Double) : Option Double :=
  let (xn, xd) := x.magnitude
  let (yn, yd) := y.magnitude
  if yn = 0 then none else ofRatio? (x.negative != y.negative) (xn * yd) (xd * yn)

/-- The same magnitude with the given sign. -/
def withSign (x : Double) (negative : Bool) : Double :=
  { x with negative }

end Double

end SchemaBundle
