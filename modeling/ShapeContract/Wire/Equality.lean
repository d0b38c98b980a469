import ShapeContract.Value.Equality

/-!
# Equality in schemas

A truth value equals only itself, at any depth, where ordinary equality takes it for a number.
Sequences are equal item by item whether they are lists or tuples.
-/

set_option autoImplicit false

namespace ShapeContract.Wire

/-- Equality of values without parts. -/
def sameAtom : Value → Value → Bool
  | .bool a, .bool b => a = b
  | .bool _, _ => false
  | _, .bool _ => false
  | a, b => a.equal b

mutual

def same : Value → Value → Bool
  | .list vs, .list ws => sameAll vs ws
  | .list vs, .tuple ws => sameAll vs ws
  | .tuple vs, .list ws => sameAll vs ws
  | .tuple vs, .tuple ws => sameAll vs ws
  | .object fs, .object gs => fs.length = gs.length && sameFields fs gs
  | a, b => sameAtom a b
termination_by structural v => v

def sameAll : List Value → List Value → Bool
  | [], [] => true
  | v :: vs, w :: ws => same v w && sameAll vs ws
  | _, _ => false
termination_by structural vs => vs

def sameFields : List (String × Value) → List (String × Value) → Bool
  | [], _ => true
  | (k, v) :: rest, gs =>
    (match Fields.get? gs k with
      | some w => same v w
      | none => false) && sameFields rest gs
termination_by structural fs => fs

end

/-- Whether some item equals an earlier one. -/
def repeats : List Value → Bool
  | [] => false
  | v :: rest => rest.any (same v) || repeats rest

end ShapeContract.Wire
