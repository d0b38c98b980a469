import ShapeContract.Declaration.Catalog
import ShapeContract.Journal
import ShapeContract.Rule.Record
import ShapeContract.Rule.Tree

/-!
# Introspection

A schema that lists its paths becomes a rule tree. Kinds become primitive types, options become
facets, embedded schemas become children; sub-schemas may nest to a bound.
-/

set_option autoImplicit false

namespace ShapeContract

namespace Introspection

/-- The type of a kind tag; unknown tags are mixed. -/
def kindTypes : Fields PrimitiveType :=
  [("String", .string), ("Number", .number), ("Decimal128", .number), ("Boolean", .boolean),
    ("Date", .date), ("ObjectID", .objectId), ("ObjectId", .objectId), ("Buffer", .buffer),
    ("Array", .array), ("Embedded", .object)]

/-- The value that a member of an enumeration stands for; other values as they are. -/
def unwrap : Value → Value
  | .member _ _ v _ => v
  | v => v

def mapKind (kind : Value) : Except Failure PrimitiveType :=
  let kind := unwrap kind
  if kind.hashable then .ok ((kind.text?.bind kindTypes.get?).getD .mixed) else .error .typeMisuse

/-- Milliseconds since the epoch of a date, a moment or its text; a number is taken as it is. -/
def epochMillis (v : Value) : Except Failure Value :=
  match v with
  | .int i => .ok (.int i)
  | .float x => .ok (.float x)
  | .date d => .ok (.int d.midnight.epochMillis)
  | .datetime t => .ok (.int t.epochMillis)
  | v =>
    match v.text? with
    | none => .error .attributeMisuse
    | some s =>
      let utc := s.toList.flatMap fun c => if c = 'Z' then "+00:00".toList else [c]
      match Calendar.readDateTime? (String.ofList utc) with
      | some t => .ok (.int t.epochMillis)
      | none => .error .valueMisuse

/-- The options of a descriptor; whatever counts as false has none. -/
def optionsOf (d : Descriptor) : Except Failure (Fields Value) :=
  if d.options.truthy then
    match d.options with
    | .object fs => .ok fs
    | _ => .error .attributeMisuse
  else .ok []

def option? (opts : Fields Value) (name : String) : Option Value :=
  (opts.get? name).bind Value.present?

/-- The values of a declared choice. -/
def choices : Value → Option (List Value)
  | .enumeration _ ms _ => some (ms.map Prod.snd)
  | .list vs => some vs
  | .tuple vs => some vs
  | _ => none

def liftString (f : Facets) (opts : Fields Value) : Except Failure Facets := do
  let enum := match opts.get? "enum" with
    | some v => if v.truthy then choices v else none
    | none => none
  let pattern ← match option? opts "match" with
    | some v => Rule.patternOf v
    | none => pure none
  pure { f with
    enum := enum
    pattern := pattern
    minLength := option? opts "minlength"
    maxLength := option? opts "maxlength" }

def liftNumber (f : Facets) (opts : Fields Value) : Facets :=
  { f with min := option? opts "min", max := option? opts "max" }

def liftDate (f : Facets) (opts : Fields Value) : Except Failure Facets := do
  let low ← (option? opts "min").mapM epochMillis
  let high ← (option? opts "max").mapM epochMillis
  pure { f with min := low, max := high }

def liftCount (f : Facets) (opts : Fields Value) : Facets :=
  { f with minItems := option? opts "minItems", maxItems := option? opts "maxItems" }

/-- The declared default; a callable is none. -/
def liftDefault (f : Facets) (opts : Fields Value) : Facets :=
  match opts.get? "default" with
  | some v => if v.isCallable then f else { f with default := some v }
  | none => f

/-- What is introspected: a value, or a block of paths that belongs to its descriptor. -/
inductive Target where
  | value (v : Value)
  | block (paths : List (String × Descriptor))

def Target.of? (d : Descriptor) : Option Target :=
  match d.block with
  | some paths => some (.block paths)
  | none => d.schema.map .value

def Target.typeName : Target → String
  | .value v => v.typeName
  | .block _ => "DocumentSchema"

def Target.entries (catalog : Catalog) : Target →
    Except Failure (List (String × Except Failure Descriptor))
  | .block paths => .ok (paths.map fun e => (e.1, .ok e.2))
  | .value v =>
    match v with
    | .source r =>
      match (catalog.source? r).bind Source.entries? with
      | some es => .ok es
      | none => .error (.notIntrospectable r.typeName)
    | v => .error (.notIntrospectable v.typeName)

def Target.name (catalog : Catalog) : Target → Value
  | .value (.source r) => ((catalog.source? r).map Source.name).getD .null
  | _ => .null

/-- The rule of array elements. -/
def itemsRule (descend : Target → Traced Rule) (caster : Descriptor) : Traced Rule := do
  let type ← .lift (mapKind caster.kind)
  let opts ← .lift (optionsOf caster)
  let plain := (Rule.bare type).facets
  let facets ← .lift (match type with
    | .string => liftString plain opts
    | .number => pure (liftNumber plain opts)
    | _ => pure plain)
  match Target.of? caster with
  | none => pure ⟨facets, none, (Rule.bare type).children⟩
  | some target => do
    let sub ← descend target
    pure ⟨{ facets with type := .object }, none, sub.children⟩

/-- The rule of a descriptor; `descend` introspects its embedded schemas. -/
def ruleOf (descend : Target → Traced Rule) (d : Descriptor) : Traced Rule := do
  let type ← .lift (mapKind d.kind)
  let opts ← .lift (optionsOf d)
  let required := ((opts.get? "required").map Value.truthy).getD false
  let plain := { (Rule.bare type).facets with required := some (.bool required) }
  let facets ← .lift (match type with
    | .string => liftString plain opts
    | .number => pure (liftNumber plain opts)
    | .date => liftDate plain opts
    | _ => pure plain)
  let items ← match type, d.caster with
    | .array, some caster => do
      let r ← itemsRule descend caster
      pure (some r)
    | _, _ => pure none
  let facets := if type = .array then liftCount facets opts else facets
  match Target.of? d with
  | none => pure ⟨liftDefault facets opts, items, (Rule.bare type).children⟩
  | some target => do
    let sub ← descend target
    pure ⟨liftDefault { facets with type := .object } opts, items, sub.children⟩

/-- A path without the dots at its end. -/
def withoutDots (path : String) : String :=
  String.ofList (path.toList.reverse.dropWhile (· = '.')).reverse

def depthFailure (bound : Int) (path : String) : Failure :=
  let p := withoutDots path
  .tooDeep bound (if p = "" then "<root>" else p)

def noteDone (typeName : String) (depth : Nat) (name : Value) (count : Nat) : JournalRecord :=
  ⟨.debug, .introspection, "Introspected " ++ typeName ++ " at depth " ++ Decimal.text depth,
    [("schema", name), ("field_count", .int count)]⟩

/-- Introspects a target with some levels of nesting left; `path` ends in a dot or is empty. -/
def walk (catalog : Catalog) (bound : Int) (depth : Nat) (path : String) : Nat → Target → Traced Rule
  | 0, _ => .fail (depthFailure bound path)
  | levels + 1, target => do
    let entries ← .lift (target.entries catalog)
    let tree ← entries.foldlM (fun (tree : Rule) e => do
      let d ← .lift e.2
      let rule ← ruleOf (walk catalog bound (depth + 1) (path ++ e.1 ++ ".") levels) d
      pure (tree.attach e.1 rule)) Rule.empty
    .note (noteDone target.typeName depth (target.name catalog) tree.kids.length)
    pure tree

end Introspection

/-- The rule tree of a schema whose sub-schemas nest at most `bound` deep. -/
def introspect (catalog : Catalog) (bound : Int) (schema : Value) : Traced Rule :=
  Introspection.walk catalog bound 0 "" (bound + 1).toNat (.value schema)

end ShapeContract
