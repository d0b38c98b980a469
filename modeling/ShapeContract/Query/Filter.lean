import ShapeContract.Pattern.Matcher
import ShapeContract.Pattern.Reader
import ShapeContract.Value.Entries
import ShapeContract.Value.Order
import ShapeContract.Value.Writable

/-!
# Filters

A filter document maps fields to conditions, all of which must hold of an item; under `$or` it lists
documents of which one must hold. A condition is a mapping with operators, or a value that the field
must equal, truth values being equal to truth values only. Of several operators in one condition the
first of `$exists`, the range, `$in` and `$regex` decides.
-/

set_option autoImplicit false

namespace ShapeContract.Filter

/-- The value of a field, unless it is missing or null. -/
def present? (v : Option Value) : Option Value := v.bind Value.present?

def existsHolds (wanted : Value) (v : Option Value) : Bool :=
  if wanted.truthy then (present? v).isSome else (present? v).isNone

/-- Whether a bound that is not null holds of a value. -/
def boundHolds (inside : Value → Value → Except Failure Bool) (bound : Option Value) (v : Value) :
    Except Failure Bool :=
  match present? bound with
  | some b => inside b v
  | none => .ok true

/-- Whether a present value is between the bounds, both included. -/
def rangeHolds (low high : Option Value) (v : Option Value) : Except Failure Bool :=
  match present? v with
  | none => .ok false
  | some v => do
    if ← boundHolds (fun b v => Value.le? b v) low v then boundHolds (fun b v => Value.le? v b) high v
    else pure false

/-- The values that a membership condition allows, if it is one. -/
def allowed? : Value → Option (List Value)
  | .list vs => some vs
  | .tuple vs => some vs
  | .set vs => some vs
  | _ => none

/-- Whether a value is one of the allowed ones; not every value can be sought in a set. -/
def isAllowed (operand : Value) (vs : List Value) (v : Value) : Except Failure Bool :=
  match operand with
  | .set _ => if v.seekable then .ok (v.among vs) else .error .typeMisuse
  | _ => .ok (v.among vs)

/-- Whether a value, or some element of a list, is allowed. -/
def memberHolds (operand : Value) (vs : List Value) (v : Option Value) : Except Failure Bool :=
  match v with
  | none => .ok false
  | some (.list es) => es.anyM (isAllowed operand vs)
  | some v => isAllowed operand vs v

/-- The regular expression that an operand is or is the text of. -/
def patternOf [CharacterNames] (operand : Value) : Except Failure Pattern :=
  match operand with
  | .regex s f => Pattern.compile f s
  | v =>
    match v.text? with
    | some s => Pattern.compile {} s
    | none => .error .attributeMisuse

/-- The text of a value: a missing one has the empty text, and one that cannot be written has none. -/
def text? (v : Option Value) : Option String :=
  match present? v with
  | none => some ""
  | some v => if v.displayable then some v.display else none

/-- Whether the text of a value matches. -/
def regexHolds [CharacterNames] (operand : Value) (v : Option Value) : Except Failure Bool := do
  let p ← patternOf operand
  match text? v with
  | some text => pure (Pattern.found p.node text)
  | none => throw .valueMisuse

def isBool : Value → Bool
  | .bool _ => true
  | _ => false

/-- Equality in which a truth value is no number. -/
def equalHolds (wanted : Value) (v : Option Value) : Bool :=
  match v with
  | none => false
  | some v => isBool v == isBool wanted && v.equal wanted

/-- Whether a condition with operators holds, if it has one that applies. -/
def operatorsHold? [CharacterNames] (cond : Entries) (v : Option Value) :
    Option (Except Failure Bool) :=
  let operand (name : String) : Option Value := cond.get? (.str name)
  match operand "$exists" with
  | some wanted => some (.ok (existsHolds wanted v))
  | none =>
    if (operand "$gte").isSome || (operand "$lte").isSome then
      some (rangeHolds (operand "$gte") (operand "$lte") v)
    else
      match (operand "$in").bind fun o => (allowed? o).map fun vs => (o, vs) with
      | some (o, vs) => some (memberHolds o vs v)
      | none => (operand "$regex").map fun o => regexHolds o v

/-- Whether a condition holds of the value of a field. -/
def conditionHolds [CharacterNames] (cond : Value) (v : Option Value) : Except Failure Bool :=
  match (cond.entries?.bind fun es => operatorsHold? es v) with
  | some answer => answer
  | none => .ok (equalHolds cond v)

def fieldHolds [CharacterNames] (item : Value) (entry : Value × Value) : Except Failure Bool := do
  let es ← item.entries
  conditionHolds entry.2 (es.get? entry.1)

/-- Whether all conditions of a document hold of an item. -/
def allHold [CharacterNames] (conditions : Entries) (item : Value) : Except Failure Bool :=
  conditions.allM (fieldHolds item)

/-- Whether one of several documents holds of an item. -/
def someHolds [CharacterNames] (branches : Value) (item : Value) : Except Failure Bool := do
  (← branches.items).anyM fun branch => do allHold (← branch.entries) item

def anyName : Value := .str "$or"

/-- Whether a filter document holds of an item. -/
def holds [CharacterNames] (filter item : Value) : Except Failure Bool := do
  let es ← filter.entries
  let branches := (es.get? anyName).getD .null
  let one ← if branches.truthy then someHolds branches item else pure true
  if one then allHold (es.filter fun e => !e.1.equal anyName) item else pure false

/-- The items of which a filter document holds, in order. -/
def apply [CharacterNames] (filter items : Value) : Except Failure (List Value) := do
  (← items.items).filterM (holds filter)

end ShapeContract.Filter
