import ShapeContract.Failure
import ShapeContract.Wire.Schema

/-!
# The room for nested calls

Preparation and check call themselves for the parts of a payload, and copies are made part by part,
so an interpreter with a bounded stack gives up on payloads that nest too deeply. How many calls fit
depends on the interpreter and on what it is doing already, so the room is taken as given.
-/

set_option autoImplicit false

namespace ShapeContract

mutual

/-- How deep the parts of a value nest. -/
def Value.depth : Value → Nat
  | .list vs => Value.depthAll vs + 1
  | .tuple vs => Value.depthAll vs + 1
  | .set vs => Value.depthAll vs + 1
  | .object fs => Value.depthFields fs + 1
  | .mapping ks vs => Nat.max (Value.depthAll ks) (Value.depthAll vs) + 1
  | _ => 0
termination_by structural v => v

def Value.depthAll : List Value → Nat
  | [] => 0
  | v :: vs => Nat.max v.depth (Value.depthAll vs)
termination_by structural vs => vs

def Value.depthFields : List (String × Value) → Nat
  | [] => 0
  | (_, v) :: fs => Nat.max v.depth (Value.depthFields fs)
termination_by structural fs => fs

end

namespace Wire

/-- The room that a stack leaves for the calls on one payload. -/
structure Stack where
  /-- Whether preparation can be called so many levels deep. -/
  enters : Nat → Bool
  /-- Whether a value can be copied so many levels deep. -/
  copies : Nat → Value → Bool
  /-- Whether the check of a prepared value comes to its end, or to a message that cannot be
  written. -/
  checks : Schema → Value → Bool

namespace Stack

/-- A stack on which every call fits. -/
def endless : Stack := ⟨fun _ => true, fun _ _ => true, fun _ _ => true⟩

/-- A stack for so many levels, those of a value that is copied among them. -/
def ofDepth (n : Nat) : Stack :=
  ⟨fun level => decide (level ≤ n), fun level v => decide (level + v.depth ≤ n), fun _ _ => true⟩

def enter (st : Stack) (level : Nat) : Except Failure Unit :=
  if st.enters level then .ok () else .error .recursionMisuse

/-- The copy of a value. -/
def copy (st : Stack) (level : Nat) (v : Value) : Except Failure Value :=
  if st.copies level v then .ok v else .error .recursionMisuse

end Stack

end Wire

end ShapeContract
