import ShapeContract.Failure
import ShapeContract.Text.DecimalNumber
import ShapeContract.Value.Display
import ShapeContract.Wire.Schema

/-!
# Coercion of scalars

A scalar is brought to a wanted type where its text or its value says how; what has the type already,
and what cannot be brought to it, stays as it is. Numbers of more than 4300 digits are refused.
-/

set_option autoImplicit false

namespace ShapeContract.Wire

/-- Whether coercion leaves a value of the type alone; a double is then never an integer. -/
def TypeName.settles : TypeName → Value → Bool
  | .integer, .int _ => true
  | .integer, _ => false
  | t, v => t.admits v

namespace Coercion

/-- The decimal text of an integer, if it is not too long. -/
def wholeText (i : Int) : Except Failure Value :=
  if (Decimal.digits i.natAbs).length > Text.digitLimit then .error .valueMisuse
  else .ok (.str (Decimal.signed i))

/-- The integer that a text in whole form denotes. -/
def wholeOf (cs : List Char) : Except Failure Value :=
  match Text.wholeNumber? cs with
  | some i => .ok (.int i)
  | none => .error .valueMisuse

/-- A text as a number: its integer if it has the whole form, else with `fractional` its double. -/
def numberOfText (fractional : Bool) (s : String) : Except Failure Value :=
  let cs := Text.trim s.toList
  if Text.isWholeForm cs then wholeOf cs
  else
    match fractional, Text.decimalNumber? cs with
    | true, some x => .ok (.float x)
    | _, _ => .ok (.str s)

def toNumber (v : Value) : Except Failure Value :=
  match v with
  | .bool b => .ok (.int (if b then 1 else 0))
  | .null => .ok (.int 0)
  | .str s => numberOfText true s
  | v => .ok v

def toInteger (v : Value) : Except Failure Value :=
  match v with
  | .bool b => .ok (.int (if b then 1 else 0))
  | .null => .ok (.int 0)
  | .str s => numberOfText false s
  | .float x =>
    match x.integral? with
    | some i => .ok (.int i)
    | none => .ok v
  | v => .ok v

def toText (v : Value) : Except Failure Value :=
  match v with
  | .null => .ok (.str "")
  | .bool b => .ok (.str (if b then "true" else "false"))
  | .int i => wholeText i
  | .float x =>
    match x.integral? with
    | some i => wholeText i
    | none => .ok (.str x.text)
  | v => .ok v

def isNumber (v : Value) (i : Int) : Bool := v.number?.any fun n => n.same (.int i)

def toBoolean (v : Value) : Value :=
  if v.isNull then .bool false
  else if v.text? = some "true" then .bool true
  else if v.text? = some "false" then .bool false
  else if isNumber v 0 then .bool false
  else if isNumber v 1 then .bool true
  else v

def toNull (v : Value) : Value :=
  if v.text? = some "" ∨ isNumber v 0 then .null else v

end Coercion

/-- A value brought to a type. -/
def coerce (t : TypeName) (v : Value) : Except Failure Value :=
  if t.settles v then .ok v
  else
    match t with
    | .number => Coercion.toNumber v
    | .integer => Coercion.toInteger v
    | .string => Coercion.toText v
    | .boolean => .ok (Coercion.toBoolean v)
    | .null => .ok (Coercion.toNull v)
    | .array => .ok v
    | .object => .ok v

end ShapeContract.Wire
