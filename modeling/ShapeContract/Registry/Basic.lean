import ShapeContract.Journal
import ShapeContract.Registry.Table
import ShapeContract.Rule.Basic
import ShapeContract.Wire.Validator

/-!
# The cache registry

Rule trees, wire documents and validators are kept under the handle of their schema, never under its
value. A schema whose end can be noticed is watched, any other is pinned, so that its handle cannot
come to mean another schema. Calls without a schema share one bucket.
-/

set_option autoImplicit false

namespace ShapeContract

/-- A schema as a registry sees it: what it is, where it lives, whether its end can be noticed. -/
structure Subject where
  handle : Nat
  watchable : Bool
  value : Value

/-- Whether the end of a value's life can be noticed; of schema objects the catalog knows it. -/
def Value.watchable : Value → Bool
  | .native _ => true
  | .enumeration _ _ _ => true
  | .member _ _ _ _ => true
  | .regex _ _ => true
  | .rule _ => true
  | .set _ => true
  | .callable => true
  | _ => false

/-- A kept object with its identity: what is returned again is the same object. -/
structure Stored (α : Type) where
  id : Nat
  value : α

/-- What is kept for one schema beside its rule tree, by override key. -/
structure Bucket where
  wires : Fields (Stored Value) := []
  validators : Fields (Stored Wire.Validator) := []

structure Registry where
  trees : Table (Stored Rule) := []
  buckets : Table Bucket := []
  watched : List Nat := []
  pinned : Table Value := []
  /-- The bucket of calls without a schema. -/
  unbound : Bucket := {}
  /-- The identity of the next object that is made. -/
  nextId : Nat := 0

structure RegistryStats where
  schemas : Nat
  trees : Nat
  wires : Nat
  validators : Nat
deriving DecidableEq, Repr

namespace Registry

def registered (r : Registry) (handle : Nat) : Bool :=
  r.watched.contains handle || r.pinned.contains handle

/-- The registry without anything under a handle. -/
def forget (r : Registry) (handle : Nat) : Registry :=
  { r with
    trees := r.trees.erase handle
    buckets := r.buckets.erase handle
    watched := r.watched.filter (· ≠ handle)
    pinned := r.pinned.erase handle }

/-- What happens when a schema has come to its end: only what was watched is noticed. -/
def collect (r : Registry) (handle : Nat) : Registry :=
  if r.watched.contains handle then r.forget handle else r

/-- What happens when schemas have come to their end: of the watched ones only those in use stay. -/
def sweep (r : Registry) (inUse : Nat → Bool) : Registry :=
  (r.watched.filter fun h => !inUse h).foldl collect r

/-- Drops what is kept for a schema, or for calls without one. -/
def evict (r : Registry) : Option Subject → Registry
  | none => { r with unbound := {} }
  | some s => r.forget s.handle

/-- Drops everything; identities already given are not given again. -/
def clear (r : Registry) : Registry := { nextId := r.nextId }

def stats (r : Registry) : RegistryStats :=
  let all := r.buckets.map Prod.snd ++ [r.unbound]
  { schemas := r.watched.length + r.pinned.length
    trees := r.trees.length
    wires := all.foldl (fun n b => n + b.wires.length) 0
    validators := all.foldl (fun n b => n + b.validators.length) 0 }

end Registry

/-- A registry at work, with the records written so far. -/
structure Desk where
  registry : Registry
  journal : List JournalRecord

/-- A computation on a registry. What it has changed and written stays when it fails. -/
abbrev RegistryM := ExceptT Failure (StateM Desk)

namespace RegistryM

def note (record : JournalRecord) : RegistryM Unit :=
  modify fun d => { d with journal := d.journal ++ [record] }

def registry : RegistryM Registry := do return (← get).registry

def change (f : Registry → Registry) : RegistryM Unit :=
  modify fun d => { d with registry := f d.registry }

/-- Does a traced computation, which changes nothing. -/
def perform {α : Type} (x : Traced α) : RegistryM α := do
  modify fun d => { d with journal := d.journal ++ x.records }
  match x.outcome with
  | .ok a => pure a
  | .error e => throw e

/-- Gives a new object its identity. -/
def store {α : Type} (value : α) : RegistryM (Stored α) := do
  let r ← registry
  change fun r => { r with nextId := r.nextId + 1 }
  pure ⟨r.nextId, value⟩

/-- The record of a pinned schema. -/
def pinRecord (s : Subject) : JournalRecord :=
  ⟨.debug, .registry, "Pinned non-weakref-able schema " ++ s.value.typeName,
    [("schema", .str s.value.typeName)]⟩

/-- Registers a schema unless it is registered. -/
def register (s : Subject) : RegistryM Unit := do
  if (← registry).registered s.handle then pure ()
  else if s.watchable then change fun r => { r with watched := r.watched ++ [s.handle] }
  else do
    change fun r => { r with pinned := r.pinned.put s.handle s.value }
    note (pinRecord s)

def treeRecord (outcome : String) : JournalRecord :=
  ⟨.debug, .registry, "Rule tree cache " ++ outcome, [("cache", .str "rule_tree")]⟩

/-- The kept tree of a schema, built if there is none. Without a schema the tree is a new one. -/
def treeOf (s : Option Subject) (build : Value → Traced Rule) : RegistryM (Stored Rule) := do
  match s with
  | none => store Rule.empty
  | some s =>
    register s
    match (← registry).trees.get? s.handle with
    | some tree => do
      note (treeRecord "hit")
      pure tree
    | none => do
      note (treeRecord "miss")
      let tree ← perform (build s.value)
      let stored ← store tree
      change fun r => { r with trees := r.trees.put s.handle stored }
      pure stored

/-- The bucket of a schema, made if there is none. -/
def bucketOf (s : Option Subject) : RegistryM Bucket := do
  match s with
  | none => return (← registry).unbound
  | some s =>
    register s
    match (← registry).buckets.get? s.handle with
    | some b => pure b
    | none => do
      change fun r => { r with buckets := r.buckets.put s.handle {} }
      pure {}

/-- Changes the bucket of a schema. -/
def changeBucket (s : Option Subject) (f : Bucket → Bucket) : RegistryM Unit :=
  change fun r =>
    match s with
    | none => { r with unbound := f r.unbound }
    | some s => { r with buckets := r.buckets.put s.handle (f ((r.buckets.get? s.handle).getD {})) }

end RegistryM

end ShapeContract
