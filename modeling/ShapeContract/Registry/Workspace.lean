import ShapeContract.Declaration.Reach
import ShapeContract.Registry.Derivation

/-!
# Workspaces

A workspace holds schema objects, the names under which they can be reached, and named registries.
What no name and no registry holds comes to its end, and the registries that watched it forget it.
-/

set_option autoImplicit false

namespace ShapeContract

/-- An object by the kind of object, its registry and its identity there. -/
structure ObjectKey where
  kind : String
  registry : String
  id : Nat
deriving DecidableEq, Repr

structure Workspace where
  catalog : Catalog := []
  names : Fields Value := []
  /-- The handles of values of which there is only one. -/
  constants : Fields Nat := []
  registries : Fields Registry := []
  /-- The objects that have been labelled, in order. -/
  labelled : List ObjectKey := []

namespace Value

/-- The key of a value of which there is only one; of other values every one is another. -/
def constantKey? : Value → Option String
  | .bool b => some (if b then "true" else "false")
  | .int i => if -5 ≤ i && i ≤ 256 then some (Decimal.signed i) else none
  | .str s =>
    match s.toList with
    | [] => some "text"
    | [c] => if c.toNat < 256 then some ("text" ++ s) else none
    | _ => none
  | .tuple [] => some "tuple"
  | .native t => some ("type " ++ t.shown)
  | .member o l _ _ => some ("member " ++ o ++ "." ++ l)
  | .regex s f => some ("regex " ++ Value.shown (.regex s f))
  | _ => none

end Value

namespace Workspace

/-- Adds a schema object. -/
def add (w : Workspace) (s : Source) (typeName shown : String) : Value × Workspace :=
  (.source ⟨w.catalog.length, typeName, shown⟩, { w with catalog := w.catalog ++ [s] })

def documentShown (name : Value) (paths : Fields Descriptor) : String :=
  "DocumentSchema(name=" ++ name.shown ++ ", paths=" ++ Decimal.text paths.length ++ ")"

/-- Adds a document schema. -/
def addDocument (w : Workspace) (name : Value) (paths : Fields Descriptor) : Value × Workspace :=
  w.add (.document name paths) "DocumentSchema" (documentShown name paths)

/-- The name and the paths of a document schema. -/
def document (w : Workspace) (v : Value) : Value × Fields Descriptor :=
  match v with
  | .source r =>
    match w.catalog.source? r with
    | some (.document name paths) => (name, paths)
    | _ => (.null, [])
  | _ => (.null, [])

/-- Declares further paths; what was declared before a failure stays. -/
def declare (w : Workspace) (schema : Value) (base : String) (definition : Value) :
    Workspace × Option Failure :=
  let (name, paths) := w.document schema
  let (paths, failure) := Document.add paths base definition
  match schema with
  | .source r => ({ w with catalog := w.catalog.set r.id (.document name paths) }, failure)
  | _ => (w, failure)

def define (w : Workspace) (name : String) (v : Value) : Workspace :=
  { w with names := w.names.put name v }

def drop (w : Workspace) (name : String) : Workspace := { w with names := w.names.erase name }

/-- A new handle for a value that is no schema object. -/
def newHandle (w : Workspace) : Nat × Workspace :=
  (w.catalog.length, { w with catalog := w.catalog ++ [.silent] })

/-- A value as the registries see it; null is no schema. -/
def subject (w : Workspace) (v : Value) : Option Subject × Workspace :=
  match v with
  | .null => (none, w)
  | .source r => (some ⟨r.id, (w.catalog.source? r).any Source.watchable, v⟩, w)
  | v =>
    match v.constantKey? with
    | none =>
      let (h, w) := w.newHandle
      (some ⟨h, v.watchable, v⟩, w)
    | some key =>
      match w.constants.get? key with
      | some h => (some ⟨h, v.watchable, v⟩, w)
      | none =>
        let (h, w) := w.newHandle
        (some ⟨h, v.watchable, v⟩, { w with constants := w.constants.put key h })

def registry (w : Workspace) (name : String) : Registry := (w.registries.get? name).getD {}

/-- Does a computation on a named registry. -/
def use {α : Type} (w : Workspace) (name : String) (x : RegistryM α) :
    (Except Failure α × List JournalRecord) × Workspace :=
  let (outcome, desk) := x.run ⟨w.registry name, []⟩
  ((outcome, desk.journal), { w with registries := w.registries.put name desk.registry })

/-- The handles that are held: by a name, or pinned by a registry. -/
def held (w : Workspace) : List Nat :=
  (w.names.flatMap fun e => e.2.sources) ++
    (w.registries.flatMap fun e => e.2.pinned.flatMap fun p => p.1 :: p.2.sources) ++
    w.constants.map Prod.snd

/-- Ends what nothing holds any more. -/
def sweep (w : Workspace) : Workspace :=
  let inUse := w.catalog.reachable w.held
  { w with registries := Fields.mapValues (fun (r : Registry) => r.sweep (inUse.contains ·)) w.registries }

/-- The label of an object: its kind and the number of its first appearance among its kind. -/
def label (w : Workspace) (key : ObjectKey) : String × Workspace :=
  let peers := w.labelled.filter fun k => k.kind = key.kind
  match peers.findIdx? fun k => k = key with
  | some i => (key.kind ++ Decimal.text i, w)
  | none => (key.kind ++ Decimal.text peers.length, { w with labelled := w.labelled ++ [key] })

end Workspace

end ShapeContract
