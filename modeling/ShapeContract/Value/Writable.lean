import ShapeContract.Text.WholeNumber
import ShapeContract.Value.Basic

/-!
# Values that can be written

An integer has a text only if it has not too many digits. A value can be written if every integer
inside can.
-/

set_option autoImplicit false

namespace ShapeContract.Value

/-- From here on an integer has too many digits to be written. -/
@[irreducible] def integerLimit : Nat := Decimal.powerOfTen Text.digitLimit

mutual

/-- Whether every integer inside can be written. -/
def writable : Value → Bool
  | .int i => i.natAbs < integerLimit
  | .list vs => writableAll vs
  | .tuple vs => writableAll vs
  | .set vs => writableAll vs
  | .object fs => writableFields fs
  | .mapping ks vs => writableAll ks && writableAll vs
  | .member _ _ v _ => writable v
  | .rule fs => writableFields fs
  | _ => true

def writableAll : List Value → Bool
  | [] => true
  | v :: vs => writable v && writableAll vs

def writableFields : List (String × Value) → Bool
  | [] => true
  | (_, v) :: rest => writable v && writableFields rest

end

/-- Whether the plain text of a value can be written; that of a member is its name. -/
def displayable : Value → Bool
  | .member _ _ _ _ => true
  | v => v.writable

end ShapeContract.Value
