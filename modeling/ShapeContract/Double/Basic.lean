import ShapeContract.Decimal

/-!
# Double-precision numbers, exactly

A finite double is a whole number of units of `2^-1074`, the smallest positive double, so order and
arithmetic are those of the integers. `ofRatio` rounds a fraction to the nearest double, a tie to
the even one.
-/

set_option autoImplicit false

namespace ShapeContract

namespace Double

def powerOfTwo (n : Nat) : Nat := Nat.pow 2 n

/-- The number of units in one. -/
def one : Nat := powerOfTwo 1074

/-- The least power of two that is too large, in units. -/
def limit : Nat := powerOfTwo 2098

theorem limit_pos : 0 < limit := by decide +kernel

/-- At most 53 significant bits, below the limit. -/
def Representable (units : Nat) : Prop := units < limit ∧ units % powerOfTwo (units.log2 - 52) = 0

instance (units : Nat) : Decidable (Representable units) :=
  inferInstanceAs (Decidable (_ ∧ _))

end Double

inductive Double where
  | nan
  | infinite (negative : Bool)
  | finite (negative : Bool) (units : Nat) (representable : Double.Representable units)
deriving DecidableEq

namespace Double

theorem representable_zero : Representable 0 := ⟨limit_pos, Nat.zero_mod _⟩

def zero (negative : Bool) : Double := .finite negative 0 representable_zero

/-- The quotient rounded to the nearest whole number, a tie to the even one. -/
def nearest (num den : Nat) : Nat :=
  let q := num / den
  let r := num % den
  if 2 * r < den then q else if 2 * r > den then q + 1 else if q % 2 = 0 then q else q + 1

def ofUnits (negative : Bool) (units : Nat) : Double :=
  if h : Representable units then .finite negative units h else .infinite negative

/-- The double nearest to `num / den`. -/
def ofRatio (negative : Bool) (num den : Nat) : Double :=
  let scaled := num * one
  let step := powerOfTwo ((scaled / den).log2 - 52)
  ofUnits negative (nearest scaled (den * step) * step)

/-- The double nearest to `digits · 10 ^ exponent`; far exponents are settled by their size alone. -/
def ofDecimal (negative : Bool) (digits : Nat) (exponent : Int) : Double :=
  if digits = 0 then zero negative
  else
    let top := exponent + (digits.log2 / 3 : Nat)
    if exponent > 400 then .infinite negative
    else if top < -400 then zero negative
    else if exponent ≥ 0 then ofRatio negative (digits * Decimal.powerOfTen exponent.toNat) 1
    else ofRatio negative digits (Decimal.powerOfTen (-exponent).toNat)

/-- The value in units with its sign, for a finite double. -/
def units? : Double → Option Int
  | .finite negative u _ => some (if negative then -(u : Int) else u)
  | _ => none

/-- Where a number stands among all integers counted in units. -/
inductive Rank where
  | bottom
  | at (units : Int)
  | top
deriving DecidableEq

namespace Rank

def lt : Rank → Rank → Bool
  | .bottom, .bottom => false
  | .bottom, _ => true
  | .at _, .bottom => false
  | .at a, .at b => a < b
  | .at _, .top => true
  | .top, _ => false

def ofInt (i : Int) : Rank := .at (i * one)

end Rank

/-- The rank of a double; a number that is none has no rank. -/
def rank? : Double → Option Rank
  | .nan => none
  | .infinite negative => some (if negative then .bottom else .top)
  | .finite negative u _ => some (.at (if negative then -(u : Int) else u))

def isNaN : Double → Bool
  | .nan => true
  | _ => false

def isZero : Double → Bool
  | .finite _ u _ => u = 0
  | _ => false

/-- The whole number that a double is, if it is one. -/
def integral? : Double → Option Int
  | .finite negative u _ =>
    if u % one = 0 then some (if negative then -((u / one : Nat) : Int) else (u / one : Nat)) else none
  | _ => none

/-- The whole part, toward zero. -/
def truncated? : Double → Option Int
  | .finite negative u _ => some (if negative then -((u / one : Nat) : Int) else (u / one : Nat))
  | _ => none

/-- The product with a natural number, rounded to the nearest double. -/
def scale : Double → Nat → Double
  | .finite negative u _, k => ofRatio negative (u * k) one
  | x, _ => x

/-- The double nearest to an integer. -/
def ofInt (i : Int) : Double := ofRatio (i < 0) i.natAbs 1

end Double

end ShapeContract
