/-
The shortest decimal text of a double.

The reals that round to a double form an interval around it, whose ends belong to
it exactly when the significand is even.  A grid of decimals with `n` significant
digits has two points next to the value; the first `n` for which one of them lies
in the interval gives the text, and of two such points the nearer is taken, the
even one on a tie.  Every step compares natural numbers.
-/
import SchemaBundle.Decimal.Double

namespace SchemaBundle

/-- Whole digits scaled by a power of ten. -/
structure Scientific where
  /-- The digits, read as a whole number. -/
  digits : Nat
  /-- The power of ten of the last digit. -/
  exponent : Int
  deriving DecidableEq, Repr

namespace Double

/-- The interval of reals that round to a value: three numerators over one
denominator, and whether the ends belong to it. -/
structure Interval where
  /-- Numerator of the value. -/
  value : Nat
  /-- Numerator of the lower end. -/
  lower : Nat
  /-- Numerator of the upper end. -/
  upper : Nat
  /-- The shared denominator of the three. -/
  denominator : Nat
  /-- Whether the ends round to the value as well. -/
  closed : Bool

/-- The interval of a double; its lower half is narrower where the gap between
doubles shrinks. -/
def interval (x : Double) : Interval :=
  let m := x.significand
  let below := if m = Nat.pow 2 52 ∧ -1074 < x.exponent then 1 else 2
  let (scale, denominator) :=
    if 0 ≤ x.exponent then (Nat.pow 2 x.exponent.toNat, 4)
    else (1, 4 * Nat.pow 2 (-x.exponent).toNat)
  ⟨4 * m * scale, (4 * m - below) * scale, (4 * m + 2) * scale, denominator, m % 2 == 0⟩

/-- The interval in units of a power of ten: each end and the value become
numerators over the returned interval's denominator. -/
def Interval.inUnits (i : Interval) (unit : Int) : Interval :=
  if 0 ≤ unit then { i with denominator := i.denominator * Nat.pow 10 unit.toNat }
  else
    let scale := Nat.pow 10 (-unit).toNat
    { i with value := i.value * scale, lower := i.lower * scale, upper := i.upper * scale }

/-- Whether a whole number of units lies in the interval. -/
def Interval.contains (i : Interval) (n : Nat) : Bool :=
  let scaled := n * i.denominator
  if i.closed then i.lower ≤ scaled && scaled ≤ i.upper else i.lower < scaled && scaled < i.upper

/-- The point of the grid with the given unit that stands for the value, if one of
the two points next to the value lies in the interval. -/
def Interval.gridPoint? (i : Interval) (unit : Int) : Option Nat :=
  let i := i.inUnits unit
  let below := i.value / i.denominator
  let above := below + 1
  match i.contains below, i.contains above with
  | true, false => some below
  | false, true => some above
  | false, false => none
  | true, true =>
    let down := i.value - below * i.denominator
    let up := above * i.denominator - i.value
    if down < up || (down == up && below % 2 == 0) then some below else some above

/-- The number of decimal digits in front of the point, or minus the number of
zeros after it, for a value between `10 ^ -400` and `10 ^ 400`. -/
def Interval.pointPosition (i : Interval) : Int :=
  ((Nat.toDigits 10 (i.value * Nat.pow 10 400 / i.denominator)).length : Int) - 400

/-- Drop the zeros at the end of a digit string, at most `fuel` of them. -/
def stripZeros : Nat → Scientific → Scientific
  | 0, s => s
  | fuel + 1, s =>
    if s.digits % 10 = 0 ∧ s.digits ≠ 0 then stripZeros fuel ⟨s.digits / 10, s.exponent + 1⟩ else s

/-- The decimal with the fewest digits that reads back as the double. -/
def shortest (x : Double) : Scientific :=
  if x.isZero then ⟨0, 0⟩
  else
    let i := x.interval
    let position := i.pointPosition
    let hit := (List.range 17).findSome? fun n =>
      let unit := position - (n + 1 : Nat)
      (i.gridPoint? unit).map fun digits => Scientific.mk digits unit
    stripZeros 20 (hit.getD ⟨x.significand, 0⟩)

/-- How exponents are written. -/
structure ExponentStyle where
  /-- Whether a positive exponent carries a sign. -/
  plus : Bool

/-- The text of a double: positional while the decimal exponent is between -5 and
15, always with a point or an exponent, so that it never reads as an integer. -/
def text (style : ExponentStyle) (x : Double) : List Char :=
  let s := x.shortest
  let digits := Nat.toDigits 10 s.digits
  let exponent : Int := s.exponent + (digits.length : Int) - 1
  let sign := if x.negative then ['-'] else []
  let body :=
    if exponent < -5 ∨ 16 ≤ exponent then
      let fraction := digits.drop 1
      let head := digits.take 1 ++ (if fraction.isEmpty then [] else '.' :: fraction)
      let exponentSign :=
        if exponent < 0 then ['-'] else if style.plus then ['+'] else []
      head ++ 'e' :: exponentSign ++ Nat.toDigits 10 exponent.natAbs
    else if exponent < 0 then
      '0' :: '.' :: List.replicate (exponent.natAbs - 1) '0' ++ digits
    else
      let whole := exponent.toNat + 1
      let padded := digits ++ List.replicate (whole - digits.length) '0'
      let fraction := padded.drop whole
      padded.take whole ++ '.' :: (if fraction.isEmpty then ['0'] else fraction)
  sign ++ body

end Double

end SchemaBundle
