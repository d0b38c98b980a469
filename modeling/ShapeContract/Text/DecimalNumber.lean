import ShapeContract.Double.Basic
import ShapeContract.Text.WholeNumber

/-!
# Reading numbers from text

The two written forms that coercion accepts: a sign with decimal digits, and a sign with digits, a
point among or before them, and an exponent. Digits may be of any script.
-/

set_option autoImplicit false

namespace ShapeContract.Text

def digitsOf (cs : List Char) : List Nat := cs.filterMap decimalValue?

/-- Whether a text is a sign and decimal digits. -/
def isWholeForm (cs : List Char) : Bool :=
  let body := (splitSign cs).2
  !body.isEmpty && body.all isDecimal

/-- The whole part, the fraction and what follows them; at least one digit in all. -/
def splitMantissa? (cs : List Char) : Option (List Char × List Char × List Char) :=
  let whole := cs.takeWhile isDecimal
  match cs.dropWhile isDecimal with
  | '.' :: rest =>
    let fraction := rest.takeWhile isDecimal
    if whole.isEmpty && fraction.isEmpty then none
    else some (whole, fraction, rest.dropWhile isDecimal)
  | rest => if whole.isEmpty then none else some (whole, [], rest)

/-- The exponent that a text consists of, zero if it is empty. -/
def wholeExponent? : List Char → Option Int
  | [] => some 0
  | e :: rest =>
    if (e = 'e' ∨ e = 'E') ∧ isWholeForm rest then
      let (negative, ds) := splitSign rest
      let v : Int := valueOf (digitsOf ds)
      some (if negative then -v else v)
    else none

/-- The double that a text in decimal form denotes. -/
def decimalNumber? (cs : List Char) : Option Double := do
  let (negative, body) := splitSign cs
  let (whole, fraction, rest) ← splitMantissa? body
  let e ← wholeExponent? rest
  pure (Double.ofDecimal negative (valueOf (digitsOf (whole ++ fraction))) (e - fraction.length))

/-- A double from its own text, the texts of infinity and of no number included. -/
def double? (s : String) : Option Double :=
  if s = "nan" then some .nan
  else if s = "inf" then some (.infinite false)
  else if s = "-inf" then some (.infinite true)
  else decimalNumber? s.toList

end ShapeContract.Text
