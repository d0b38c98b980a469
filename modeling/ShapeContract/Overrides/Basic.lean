import ShapeContract.Failure
import ShapeContract.Value.Entries

/-!
# Overrides and validator options

Overrides adapt a document shape to one endpoint: paths to keep, to drop, to make optional or
required, and definitions to append. Both records are read from loose mappings.
-/

set_option autoImplicit false

namespace ShapeContract

structure Overrides where
  included : List Value := []
  excluded : List Value := []
  optional : List Value := []
  required : List Value := []
  appended : Fields Value := []

structure ValidatorOptions where
  coerceTypes : Bool := false
  allowUnknown : Bool := false
deriving DecidableEq, Repr

namespace Overrides

/-- A list of paths; whatever counts as false is an empty one. -/
def pathList (v : Option Value) : Except Failure (List Value) :=
  match v with
  | none => .ok []
  | some v => if v.truthy then v.items else .ok []

/-- The appended definitions, as a mapping or as a list of pairs. -/
def appendEntries (v : Option Value) : Except Failure (Fields Value) :=
  match v with
  | none => .ok []
  | some v =>
    if v.truthy then do
      let es ← v.asEntries
      pure (Fields.ofList (es.map fun e => (e.1.text?.getD e.1.display, e.2)))
    else .ok []

/-- Reads overrides; null stands for none. -/
def ofValue : Value → Except Failure Overrides
  | .null => .ok {}
  | .object fs => do
    let included ← pathList (Fields.get? fs "include")
    let excluded ← pathList (Fields.get? fs "exclude")
    let optional ← pathList (Fields.get? fs "optional")
    let required ← pathList (Fields.get? fs "required")
    let appended ← appendEntries (Fields.get? fs "append")
    pure ⟨included, excluded, optional, required, appended⟩
  | _ => .error .attributeMisuse

/-- Paths can be looked up only if each is hashable. -/
def checkPaths (vs : List Value) : Except Failure Unit :=
  if vs.all Value.hashable then .ok () else .error .typeMisuse

/-- Whether a path is in a path list. -/
def lists (vs : List Value) (path : String) : Bool := (Value.str path).among vs

end Overrides

namespace ValidatorOptions

def flag (fs : Fields Value) (name other : String) : Bool :=
  match fs.get? name with
  | some v => v.truthy
  | none => (fs.get? other).any Value.truthy

/-- Reads options; null stands for none set. -/
def ofValue : Value → Except Failure ValidatorOptions
  | .null => .ok {}
  | .object fs =>
    .ok ⟨flag fs "coerce_types" "coerceTypes", flag fs "allow_unknown" "allowUnknown"⟩
  | _ => .error .attributeMisuse

end ValidatorOptions

end ShapeContract
