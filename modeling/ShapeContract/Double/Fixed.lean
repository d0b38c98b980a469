import ShapeContract.Double.Shortest

/-!
# Doubles with a given number of digits

A finite double rounded to a number of decimal places, or to a number of significant digits. The
value is exact before it is rounded; a tie goes to the even neighbour.
-/

set_option autoImplicit false

namespace ShapeContract.Double

def padLeft (width : Nat) (c : Char) (cs : List Char) : List Char :=
  List.replicate (width - cs.length) c ++ cs

/-- The digits before and after the point, with `places` of the latter. -/
def fixedDigits (units places : Nat) : List Char × List Char :=
  let ds := padLeft (places + 1) '0' (Decimal.digits (nearest (units * Decimal.powerOfTen places) one))
  (ds.take (ds.length - places), ds.drop (ds.length - places))

/-- `places + 1` significant digits and the decimal exponent of the first. -/
def significantDigits (units places : Nat) : List Char × Int :=
  if units = 0 then (List.replicate (places + 1) '0', 0)
  else
    let e := leadingExponent units
    let g := e - places
    let n := if g ≥ 0 then nearest units (one * Decimal.powerOfTen g.toNat)
      else nearest (units * Decimal.powerOfTen (-g).toNat) one
    let ds := Decimal.digits n
    if ds.length > places + 1 then (ds.take (places + 1), e + 1) else (ds, e)

/-- Digits with a point before the fraction, which is written anyway with `point`. -/
def withPoint (point : Bool) (whole fraction : List Char) : List Char :=
  if fraction.isEmpty && !point then whole else whole ++ '.' :: fraction

/-- Positional, with a number of places. -/
def fixed (point : Bool) (units places : Nat) : List Char :=
  let (whole, fraction) := fixedDigits units places
  withPoint point whole fraction

/-- With an exponent, and a number of places after the first digit. -/
def scientific (point : Bool) (units places : Nat) : List Char :=
  let (ds, e) := significantDigits units places
  withPoint point (ds.take 1) (ds.drop 1) ++ 'e' :: exponentText e

/-- Positional or with an exponent, with a number of significant digits at most. With `point` zeros at
the end are written. -/
def general (point : Bool) (units digits : Nat) : List Char :=
  let digits := max digits 1
  let (ds, e) := significantDigits units (digits - 1)
  let kept (cs : List Char) : List Char := if point then cs else stripZeros cs
  if e < -4 || e ≥ digits then
    withPoint point (ds.take 1) (kept (ds.drop 1)) ++ 'e' :: exponentText e
  else
    let (whole, fraction) := fixedDigits units (digits - 1 - e).toNat
    withPoint point whole (kept fraction)

end ShapeContract.Double
