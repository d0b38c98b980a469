import ShapeContract.Declaration.Descriptor
import ShapeContract.Failure

/-!
# Declared document shapes

A definition maps keys to declarations. A mapping without `type` is a nested block and declares
dotted paths; a list declares an array by its first element; a schema object is embedded. What was
declared before a failure stays declared.
-/

set_option autoImplicit false

namespace ShapeContract

/-- Declared paths, and the failure that stopped the declaration. -/
abbrev Declared := Fields Descriptor × Option Failure

namespace Document

def isDocument (r : SourceRef) : Bool := r.typeName = "DocumentSchema"

/-- The kind tag of a declaration that is no list, enumeration or document schema. -/
def kindOf (v : Value) : Except Failure Value :=
  match v with
  | .native t => .ok (.str (SchemaKind.ofNative t).text)
  | v =>
    match v.text? with
    | some s => .ok (.str s)
    | none => if v.hashable then .ok (.str SchemaKind.mixed.text) else .error .typeMisuse

/-- Declares one path. -/
def declare (paths : Fields Descriptor) (path : String) (d : Except Failure Descriptor) : Declared :=
  match d with
  | .ok d => (paths.put path d, none)
  | .error e => (paths, some e)

def withDefault (options : Fields Value) (name : String) (v : Value) : Fields Value :=
  if options.contains name then options else options.put name v

mutual

/-- The descriptor of a declared type with options. An array element may also be a mapping: with
`type` a type with options of its own, else a block of paths. -/
def describe (element : Bool) (options : Fields Value) : Value → Except Failure Descriptor
  | .object fs =>
    if !element then .error .typeMisuse
    else if Fields.contains fs "type" then describeType (Fields.erase fs "type") fs
    else
      match declareFields [] "" fs with
      | (paths, none) =>
        .ok { kind := .str SchemaKind.embedded.text, options := .object [], block := some paths }
      | (_, some e) => .error e
  | .list [] => .ok { kind := .str SchemaKind.array.text, options := .object options }
  | .list (e :: _) => do
    let caster ← describe true [] e
    pure { kind := .str SchemaKind.array.text, options := .object options, caster := some caster }
  | .source r =>
    if isDocument r then
      .ok { kind := .str SchemaKind.embedded.text, options := .object options,
            schema := some (.source r) }
    else do
      let kind ← kindOf (.source r)
      pure { kind := kind, options := .object options }
  | .enumeration n ms textual =>
    .ok { kind := .str SchemaKind.string.text,
          options := .object (withDefault options "enum" (.enumeration n ms textual)) }
  | v => do
    let kind ← kindOf v
    pure { kind := kind, options := .object options }

/-- The descriptor of the type that a declaration names. -/
def describeType (options : Fields Value) : List (String × Value) → Except Failure Descriptor
  | [] => .error .keyMisuse
  | (k, v) :: rest => if k = "type" then describe false options v else describeType options rest

/-- Declares the entries of a definition below a path that ends in a dot, or the empty one. -/
def declareFields (paths : Fields Descriptor) (base : String) : List (String × Value) → Declared
  | [] => (paths, none)
  | (k, v) :: rest =>
    let path := base ++ k
    let declared := match v with
      | .object fs =>
        if Fields.contains fs "type" then
          declare paths path (describeType (Fields.erase fs "type") fs)
        else declareFields paths (path ++ ".") fs
      | v => declare paths path (describe false [] v)
    match declared with
    | (paths, none) => declareFields paths base rest
    | (paths, some e) => (paths, some e)

end

/-- Adds a definition to declared paths. -/
def add (paths : Fields Descriptor) (base : String) (definition : Value) : Declared :=
  match definition with
  | .object fs => declareFields paths base fs
  | _ => (paths, some .attributeMisuse)

/-- The paths of a new schema; whatever counts as false defines nothing. -/
def ofDefinition (definition : Value) : Declared :=
  if definition.truthy then add [] "" definition else ([], none)

end Document

end ShapeContract
