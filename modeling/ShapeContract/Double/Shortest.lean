import ShapeContract.Decimal
import ShapeContract.Double.Basic

/-!
# The text of a double

The fewest decimal digits that read back as the same double, and of those the nearest to it. From
`10^-4` up to `10^16` they are written positionally with at least one decimal place, otherwise with
an exponent of at least two digits.
-/

set_option autoImplicit false

namespace ShapeContract.Double

/-- The decimal exponent of the leading digit of a positive number of units. -/
def leadingExponent (units : Nat) : Int :=
  ((Decimal.digits (units * Decimal.powerOfTen 400 / one)).length : Int) - 401

/-- The gap in quarter units to each end of the numbers that round to this one: below, above. -/
def margins (units : Nat) : Nat × Nat :=
  let k := units.log2 - 52
  if k > 0 ∧ units = powerOfTwo units.log2 then (powerOfTwo k, 2 * powerOfTwo k)
  else (2 * powerOfTwo k, 2 * powerOfTwo k)

/-- Whether `c · 10^g` rounds to `units`; the two ends count for an even significand. -/
def readsBack (units c : Nat) (g : Int) : Bool :=
  let (low, high) := margins units
  let point := if g ≥ 0 then c * Decimal.powerOfTen g.toNat * (4 * one) else c * (4 * one)
  let scale := if g ≥ 0 then 1 else Decimal.powerOfTen (-g).toNat
  let lower := (4 * units - low) * scale
  let upper := (4 * units + high) * scale
  let even := units / powerOfTwo (units.log2 - 52) % 2 = 0
  if even then lower ≤ point && point ≤ upper else lower < point && point < upper

/-- The point of the grid `10^g` that reads back and is nearest, if one does. -/
@[irreducible] def onGrid? (units : Nat) (g : Int) : Option Nat :=
  let num := if g ≥ 0 then units else units * Decimal.powerOfTen (-g).toNat
  let den := if g ≥ 0 then one * Decimal.powerOfTen g.toNat else one
  let c := num / den
  match readsBack units c g, readsBack units (c + 1) g with
  | true, true => some (nearest num den)
  | true, false => some c
  | false, true => some (c + 1)
  | false, false => none

/-- The shortest digits of a positive number of units, searched from `count` digits up. -/
def search (units : Nat) (e : Int) : Nat → Nat → Nat × Int
  | 0, _ => (units, -1074)
  | fuel + 1, count =>
    let g := e - (count : Int) + 1
    match onGrid? units g with
    | some c => (c, g)
    | none => search units e fuel (count + 1)

def stripZeros : List Char → List Char
  | [] => []
  | c :: rest =>
    match stripZeros rest with
    | [] => if c = '0' then [] else [c]
    | tail => c :: tail

/-- The significant digits of a positive number of units and the exponent of the first of them. -/
def shortest (units : Nat) : List Char × Int :=
  let (c, g) := search units (leadingExponent units) 17 1
  let ds := Decimal.digits c
  (stripZeros ds, g + (ds.length : Int) - 1)

def exponentText (e : Int) : List Char :=
  let ds := Decimal.digits e.natAbs
  (if e < 0 then '-' else '+') :: (if ds.length < 2 then '0' :: ds else ds)

/-- Writes significant digits whose first has the given decimal exponent. -/
def layout (ds : List Char) (e : Int) : List Char :=
  if e < -4 || e ≥ 16 then
    match ds with
    | [] => []
    | [d] => d :: 'e' :: exponentText e
    | d :: rest => d :: '.' :: rest ++ 'e' :: exponentText e
  else if e < 0 then '0' :: '.' :: List.replicate ((-e).toNat - 1) '0' ++ ds
  else
    let whole := e.toNat + 1
    if ds.length ≤ whole then ds ++ List.replicate (whole - ds.length) '0' ++ ['.', '0']
    else ds.take whole ++ '.' :: ds.drop whole

def text : Double → String
  | .nan => "nan"
  | .infinite negative => if negative then "-inf" else "inf"
  | .finite negative u _ =>
    let body := if u = 0 then ['0', '.', '0'] else let (ds, e) := shortest u; layout ds e
    String.ofList (if negative then '-' :: body else body)

end ShapeContract.Double
