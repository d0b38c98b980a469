import ShapeContract.Overrides.Basic
import ShapeContract.Rule.Record
import ShapeContract.Rule.Tree

/-!
# Applying overrides to a rule tree

The leaves of the tree are listed by path, selected, adjusted and joined by the appended rules, and
a new tree is built from the list. An appended rule is a required text unless its definition says
otherwise.
-/

set_option autoImplicit false

namespace ShapeContract

namespace Rule

/-- The entries of a definition: of a mapping its own, of a rule its record. -/
def definitionEntries : Value → Except Failure (Fields Value)
  | .object fs => .ok fs
  | .rule fs => do
    let r ← ofValue (.rule fs)
    match r.toValue with
    | .object gs => pure gs
    | _ => throw .typeMisuse
  | _ => .error .typeMisuse

def appendDefaults : Fields Value := [("type", .str "string"), ("required", .bool true)]

/-- The rule that an appended definition stands for. -/
def ofDefinition (v : Value) : Except Failure Rule := do
  let fs ← definitionEntries v
  ofValue (.object (Fields.putAll appendDefaults fs))

end Rule

namespace Overrides

/-- Whether a leaf path stays: it is among the included ones, if there are any, and not excluded. -/
def keeps (o : Overrides) (path : String) : Bool :=
  (o.included.isEmpty || lists o.included path) && !lists o.excluded path

/-- A leaf with its requirement changed as the overrides say; `required` wins over `optional`. -/
def adjust (o : Overrides) (path : String) (r : Rule) : Rule :=
  if lists o.required path then r.withRequired true
  else if lists o.optional path then r.withRequired false
  else r

def selectLeaves (o : Overrides) (leaves : Fields Rule) : Fields Rule :=
  (leaves.filter fun e => o.keeps e.1).map fun e => (e.1, o.adjust e.1 e.2)

def appendedRules : Fields Value → Except Failure (Fields Rule)
  | [] => .ok []
  | (path, d) :: rest => do
    let r ← Rule.ofDefinition d
    let rs ← appendedRules rest
    pure ((path, r) :: rs)

def checkAll (o : Overrides) : Except Failure Unit := do
  checkPaths o.included
  checkPaths o.excluded
  checkPaths o.optional
  checkPaths o.required

/-- The adapted leaves by path. -/
def effective (o : Overrides) (tree : Rule) : Except Failure (Fields Rule) := do
  o.checkAll
  let appended ← appendedRules o.appended
  pure ((o.selectLeaves (tree.flatten "")).putAll appended)

def build (leaves : Fields Rule) : Rule :=
  leaves.foldl (fun root e => root.attach e.1 e.2) Rule.empty

/-- The tree adapted by the overrides. -/
def apply (o : Overrides) (tree : Rule) : Except Failure Rule := do
  pure (build (← o.effective tree))

end Overrides

end ShapeContract
