import ShapeContract.Overrides.Basic
import ShapeContract.Rule.Record
import ShapeContract.Sorting
import ShapeContract.Value.JsonText
import ShapeContract.Value.Order
import ShapeContract.Value.Writable

/-!
# The cache key of overrides and options

One canonical JSON text: path lists sorted, members sorted by name, empty parts null. Overrides that
mean the same on plain data have the same key. Integers of too many digits cannot be written.
-/

set_option autoImplicit false

namespace ShapeContract

namespace Value

/-- A rule that is a value, written as a record; other values as they are. -/
def ofRuleFacets (v : Value) : Value :=
  match Rule.ofValue v with
  | .ok r => r.toValue
  | .error _ => v

mutual

/-- The form of an appended definition in a key: rules as records, regular expressions as their
source, members of enumerations as their values. -/
def plain : Value → Value
  | .rule fs => ofRuleFacets (.rule fs)
  | .object fs => .object (plainFields fs)
  | .mapping ks vs => .object ((ks.map fun k => k.text?.getD k.display).zip (plainAll vs))
  | .list vs => .list (plainAll vs)
  | .tuple vs => .list (plainAll vs)
  | .regex s _ => .str s
  | .member _ _ v _ => v
  | v => v

def plainAll : List Value → List Value
  | [] => []
  | v :: vs => plain v :: plainAll vs

def plainFields : List (String × Value) → List (String × Value)
  | [] => []
  | (k, v) :: rest => (k, plain v) :: plainFields rest

end

end Value

namespace Overrides

/-- A sorted path list, null if empty. -/
def keyList (vs : List Value) : Except Failure Value := do
  let sorted ← Sorting.sort Value.lt? vs
  pure (if sorted.isEmpty then .null else .list sorted)

/-- The values that a key is made of. -/
def values (o : Overrides) : List Value :=
  o.included ++ o.excluded ++ o.optional ++ o.required ++ o.appended.map Prod.snd

/-- The canonical key. -/
def key (o : Overrides) (opts : ValidatorOptions) : Except Failure String := do
  let included ← keyList o.included
  let excluded ← keyList o.excluded
  let optional ← keyList o.optional
  let required ← keyList o.required
  if !o.values.all Value.writable then throw .valueMisuse
  let appended := if o.appended.isEmpty then Value.null else (Value.object o.appended).plain
  let record := Value.object
    [("include", included), ("exclude", excluded), ("optional", optional), ("required", required),
      ("append", appended), ("allowUnknown", .bool opts.allowUnknown),
      ("coerceTypes", .bool opts.coerceTypes)]
  pure (record.json .canonical)

/-- The key of overrides and options as they are given. -/
def keyOf (overrides options : Value) : Except Failure String := do
  let o ← ofValue overrides
  let opts ← ValidatorOptions.ofValue options
  o.key opts

end Overrides

end ShapeContract
