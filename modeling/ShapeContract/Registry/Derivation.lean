import ShapeContract.Introspection
import ShapeContract.Overrides.Key
import ShapeContract.Overrides.Shared
import ShapeContract.Registry.Basic
import ShapeContract.Wire.Emission

/-!
# Derivation of validators

From a schema to its rule tree, from that to the wire document of one endpoint, from that to a
validator. Every stage looks into the registry before it works, and keeps what it has made. Deriving
a wire document writes to the kept tree wherever the adapted tree shares its nodes.
-/

set_option autoImplicit false

namespace ShapeContract

/-- The schema objects, and how deep sub-schemas may nest, if the settings can be read. -/
structure Environment where
  catalog : Catalog
  bound : Except Failure Int

/-- The handling of payloads that options ask for. -/
def ValidatorOptions.handling (opts : ValidatorOptions) : Wire.Handling :=
  ⟨opts.coerceTypes, opts.allowUnknown⟩

namespace RegistryM

def keyedRecord (what cache key outcome : String) : JournalRecord :=
  ⟨.debug, .validators, what ++ " cache " ++ outcome,
    [("cache", .str cache), ("override_key", .str key)]⟩

/-- The rule tree of a schema. -/
def compileTree (env : Environment) (s : Option Subject) : RegistryM (Stored Rule) := do
  let bound ← env.bound
  treeOf s (introspect env.catalog bound)

/-- The document of a schema adapted by overrides. -/
def adaptedDocument (env : Environment) (s : Subject) (o : Overrides) (allowUnknown : Bool) :
    RegistryM Value := do
  let tree ← compileTree env (some s)
  let effective ← o.apply tree.value
  change fun r => { r with trees := r.trees.put s.handle ⟨tree.id, o.applyShared tree.value⟩ }
  pure (Wire.ofTree allowUnknown effective)

def document (env : Environment) (s : Option Subject) (o : Overrides) (allowUnknown : Bool) :
    RegistryM Value :=
  match s with
  | none => ExceptT.mk (pure (Wire.ofOverrides allowUnknown o))
  | some s => adaptedDocument env s o allowUnknown

/-- The wire document of a schema, overrides and options. -/
def emit (env : Environment) (s : Option Subject) (o : Overrides) (opts : ValidatorOptions) :
    RegistryM (Stored Value) := do
  let key ← o.key opts
  let bucket ← bucketOf s
  match bucket.wires.get? key with
  | some wire => do
    note (keyedRecord "Wire schema" "wire_schema" key "hit")
    pure wire
  | none => do
    note (keyedRecord "Wire schema" "wire_schema" key "miss")
    let wire ← store (← document env s o opts.allowUnknown)
    changeBucket s fun b => { b with wires := b.wires.put key wire }
    pure wire

/-- The validator of a schema, overrides and options. -/
def build [CharacterNames] (env : Environment) (s : Option Subject) (o : Overrides)
    (opts : ValidatorOptions) :
    RegistryM (Stored Wire.Validator) := do
  let key ← o.key opts
  let bucket ← bucketOf s
  match bucket.validators.get? key with
  | some validator => do
    note (keyedRecord "Validator" "validator" key "hit")
    pure validator
  | none => do
    note (keyedRecord "Validator" "validator" key "miss")
    let wire ← emit env s o opts
    let validator ← store (← perform (Wire.compile opts.handling wire.value))
    changeBucket s fun b => { b with validators := b.validators.put key validator }
    pure validator

end RegistryM

end ShapeContract
