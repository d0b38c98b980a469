import ShapeContract.Declaration.Catalog

/-!
# Which schema objects are in use

A schema object is in use as long as something that is in use refers to it. `Catalog.reachable` finds
the schema objects in use from those that are held directly.
-/

set_option autoImplicit false

namespace ShapeContract

namespace Value

mutual

/-- The schema objects that a value refers to. -/
def sources : Value → List Nat
  | .source r => [r.id]
  | .list vs => sourcesAll vs
  | .tuple vs => sourcesAll vs
  | .set vs => sourcesAll vs
  | .object fs => sourcesIn fs
  | .rule fs => sourcesIn fs
  | .mapping ks vs => sourcesAll ks ++ sourcesAll vs
  | .enumeration _ ms _ => sourcesIn ms
  | .member _ _ v _ => sources v
  | _ => []
termination_by structural v => v

def sourcesAll : List Value → List Nat
  | [] => []
  | v :: rest => sources v ++ sourcesAll rest
termination_by structural vs => vs

def sourcesIn : List (String × Value) → List Nat
  | [] => []
  | (_, v) :: rest => sources v ++ sourcesIn rest
termination_by structural fs => fs

end

end Value

namespace Descriptor

mutual

def sources : Descriptor → List Nat
  | ⟨kind, options, caster, schema, block⟩ =>
    kind.sources ++ options.sources ++ casterSources caster ++ (schema.map Value.sources).getD [] ++
      blockSources block

def casterSources : Option Descriptor → List Nat
  | none => []
  | some d => sources d

def blockSources : Option (List (String × Descriptor)) → List Nat
  | none => []
  | some ps => pathSources ps

def pathSources : List (String × Descriptor) → List Nat
  | [] => []
  | (_, d) :: rest => sources d ++ pathSources rest

end

end Descriptor

namespace Source

/-- The schema objects that a schema object refers to. -/
def sources : Source → List Nat
  | .document name paths => name.sources ++ Descriptor.pathSources paths
  | .provider paths _ => Descriptor.pathSources paths
  | .table _ columns => columns.flatMap fun c =>
    (match c.default with
      | some (.scalar v) => v.sources
      | _ => []) ++ (c.constraints.map Value.sources).getD []
  | .silent => []

end Source

namespace Catalog

/-- The schema objects that some given ones refer to, one step further at a time. -/
def reachableFrom (catalog : Catalog) : Nat → List Nat → List Nat
  | 0, held => held
  | fuel + 1, held =>
    let next := (held.flatMap fun i => (catalog[i]?.map Source.sources).getD []).filter (· ∉ held)
    if next.isEmpty then held else reachableFrom catalog fuel (held ++ next.eraseDups)

/-- The schema objects in use from those that are held. -/
def reachable (catalog : Catalog) (held : List Nat) : List Nat := catalog.reachableFrom catalog.length held

end Catalog

end ShapeContract
