import ShapeContract.Failure
import ShapeContract.Value.Display
import ShapeContract.Value.Equality

/-!
# Mappings with any keys

The entries of a mapping whose keys may be any values, found by equality. A list of pairs can stand
for a mapping.
-/

set_option autoImplicit false

namespace ShapeContract

/-- Entries in order; of two entries with equal keys the first counts. -/
abbrev Entries := List (Value × Value)

namespace Entries

def get? : Entries → Value → Option Value
  | [], _ => none
  | (k, v) :: rest, key => if k.equal key then some v else get? rest key

def put : Entries → Value → Value → Entries
  | [], key, x => [(key, x)]
  | (k, v) :: rest, key, x => if k.equal key then (k, x) :: rest else (k, v) :: put rest key x

def ofFields (fs : Fields Value) : Entries := fs.map fun e => (.str e.1, e.2)

def ofList (es : List (Value × Value)) : Entries := es.foldl (fun acc e => acc.put e.1 e.2) []

def putAll (es more : Entries) : Entries := more.foldl (fun acc e => acc.put e.1 e.2) es

/-- The mapping of the entries. -/
def toValue (es : Entries) : Value :=
  match es.mapM fun e => e.1.text? with
  | some names => .object (names.zip (es.map Prod.snd))
  | none => .mapping (es.map Prod.fst) (es.map Prod.snd)

end Entries

namespace Value

/-- The entries of a mapping. -/
def entries? : Value → Option Entries
  | .object fs => some (.ofFields fs)
  | .mapping ks vs => some (ks.zip vs)
  | _ => none

/-- The entries of a mapping, which is asked of the value. -/
def entries (v : Value) : Except Failure Entries :=
  match v.entries? with
  | some es => .ok es
  | none => .error .attributeMisuse

/-- What a walk over the value meets, which is asked of the value. -/
def items (v : Value) : Except Failure (List Value) :=
  match v.items? with
  | some vs => .ok vs
  | none => .error .typeMisuse

/-- A key and a value, given as a sequence of the two. -/
def pair (v : Value) : Except Failure (Value × Value) := do
  match ← v.items with
  | [k, w] => if k.hashable then pure (k, w) else throw .typeMisuse
  | _ => throw .valueMisuse

/-- The entries of a mapping, or those that a sequence of pairs lists. -/
def asEntries (v : Value) : Except Failure Entries :=
  match v.entries? with
  | some es => .ok es
  | none => do
    let pairs ← (← v.items).mapM pair
    pure (.ofList pairs)

end Value

end ShapeContract
