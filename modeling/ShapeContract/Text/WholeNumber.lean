import ShapeContract.Decimal
import ShapeContract.Text.Classes

/-!
# Reading whole numbers from text

A sign, then decimal digits of any script with single underscores between them, with blanks around.
More than 4300 digits are refused.
-/

set_option autoImplicit false

namespace ShapeContract.Text

def digitLimit : Nat := 4300

/-- White space that may surround a number: all but the four ASCII separators. -/
def isNumberBlank (c : Char) : Bool := isBlank c && !(28 ≤ c.toNat && c.toNat ≤ 31)

def dropBlanks : List Char → List Char
  | [] => []
  | c :: rest => if isNumberBlank c then dropBlanks rest else c :: rest

def trimNumber (cs : List Char) : List Char := (dropBlanks (dropBlanks cs).reverse).reverse

/-- The digit values of a run of digits in which an underscore may stand between two digits. -/
def digitRun? : List Char → Option (List Nat)
  | [] => none
  | [c] => (decimalValue? c).map ([·])
  | c :: '_' :: rest => do
    let d ← decimalValue? c
    let ds ← digitRun? rest
    pure (d :: ds)
  | c :: rest => do
    let d ← decimalValue? c
    let ds ← digitRun? rest
    pure (d :: ds)

def valueOf (ds : List Nat) : Nat := ds.foldl (fun acc d => 10 * acc + d) 0

/-- The sign in front of a number and what follows it. -/
def splitSign : List Char → Bool × List Char
  | '-' :: rest => (true, rest)
  | '+' :: rest => (false, rest)
  | cs => (false, cs)

/-- The integer that a text denotes. -/
def wholeNumber? (cs : List Char) : Option Int :=
  let (negative, body) := splitSign (trimNumber cs)
  match digitRun? body with
  | some ds =>
    if ds.length > digitLimit then none
    else some (if negative then -(valueOf ds : Int) else (valueOf ds : Int))
  | none => none

end ShapeContract.Text
