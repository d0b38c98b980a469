import ShapeContract.Rule.Basic
import ShapeContract.Text.Split

/-!
# Rule trees and dotted paths

A dotted path names a node below a root. `Rule.attach` writes a rule at a path and creates object
nodes on the way; `Rule.flatten` lists the leaves of a tree by path; `Rule.outline` lists all nodes.
-/

set_option autoImplicit false

namespace ShapeContract

/-- The segments of a dotted path. -/
def segments (path : String) : List String := Text.split '.' path

/-- A path extended by a name; the root has the empty path. -/
def extendPath (path name : String) : String := if path = "" then name else path ++ "." ++ name

namespace Rule

def child? (r : Rule) (name : String) : Option Rule := r.kids.get? name

def putChild (r : Rule) (name : String) (c : Rule) : Rule :=
  ⟨r.facets, r.items, some (r.kids.put name c)⟩

/-- Writes a rule below a first segment and further ones. -/
def attachAt (root : Rule) (first : String) : List String → Rule → Rule
  | [], rule => root.putChild first rule
  | next :: rest, rule =>
    root.putChild first (attachAt ((root.child? first).getD empty) next rest rule)

/-- Writes a rule at a dotted path. -/
def attach (root : Rule) (path : String) (rule : Rule) : Rule :=
  match segments path with
  | [] => root
  | first :: rest => attachAt root first rest rule

/-- The node below a sequence of names. -/
def node? (r : Rule) : List String → Option Rule
  | [] => some r
  | name :: rest => (r.child? name).bind fun c => node? c rest

mutual

/-- The leaves below a node in order; an object with children is no leaf. -/
def flattenFrom (path : String) : Rule → Fields Rule
  | ⟨_, _, none⟩ => []
  | ⟨_, _, some cs⟩ => flattenFields path cs

def flattenFields (path : String) : List (String × Rule) → Fields Rule
  | [] => []
  | (name, c) :: rest => leaf (extendPath path name) c ++ flattenFields path rest

/-- A child as itself, or the leaves below it. -/
def leaf (path : String) : Rule → Fields Rule
  | ⟨f, items, none⟩ => [(path, ⟨f, items, none⟩)]
  | ⟨f, items, some cs⟩ =>
    if f.type = .object ∧ cs ≠ [] then flattenFields path cs else [(path, ⟨f, items, some cs⟩)]

end

/-- The leaves of a tree by path; of two leaves with one path the later wins at the earlier place. -/
def flatten (path : String) (r : Rule) : Fields Rule := Fields.ofList (flattenFrom path r)

/-- A node in a listing: path, type, whether it says it is required, whether it has a default. -/
structure OutlineEntry where
  path : String
  type : PrimitiveType
  required : Option Value
  hasDefault : Bool

mutual

/-- All nodes, depth first; the element rule of a node comes before its children. -/
def outline (path : String) : Rule → List OutlineEntry
  | ⟨f, items, children⟩ =>
    ⟨path, f.type, f.required, f.default.isSome⟩ ::
      (outlineItems (path ++ "[]") items ++ outlineChildren path children)

def outlineItems (path : String) : Option Rule → List OutlineEntry
  | none => []
  | some r => outline path r

def outlineChildren (path : String) : Option (List (String × Rule)) → List OutlineEntry
  | none => []
  | some cs => outlineFields path cs

def outlineFields (path : String) : List (String × Rule) → List OutlineEntry
  | [] => []
  | (name, r) :: rest => outline (extendPath path name) r ++ outlineFields path rest

end

end Rule

end ShapeContract
