import ShapeContract.Declaration.Document
import ShapeContract.Declaration.Table

/-!
# Schema objects

A catalog holds the schema objects of a program by number, so that schemas may refer to one another
and to themselves. Most of them list their paths with descriptors.
-/

set_option autoImplicit false

namespace ShapeContract

inductive Source where
  /-- A declared document shape with its name. -/
  | document (name : Value) (paths : Fields Descriptor)
  /-- Any object that lists paths; `slotted` ones can only be held, not watched. -/
  | provider (paths : List (String × Descriptor)) (slotted : Bool)
  | table (name : String) (columns : List Column)
  /-- An object whose path listing cannot be called. -/
  | silent

abbrev Catalog := List Source

namespace Source

/-- The listed paths in order; a descriptor may fail when its turn comes. -/
def entries? : Source → Option (List (String × Except Failure Descriptor))
  | .document _ paths => some (paths.map fun e => (e.1, .ok e.2))
  | .provider paths _ => some (paths.map fun e => (e.1, .ok e.2))
  | .table _ columns => some (columns.map fun c => (c.key, c.descriptor))
  | .silent => none

/-- The name that records give, if any. -/
def name : Source → Value
  | .document name _ => name
  | .table name _ => .str name
  | _ => .null

/-- Whether the end of the object's life can be noticed. -/
def watchable : Source → Bool
  | .provider _ slotted => !slotted
  | _ => true

end Source

namespace Catalog

def source? (catalog : Catalog) (r : SourceRef) : Option Source := catalog[r.id]?

end Catalog

end ShapeContract
