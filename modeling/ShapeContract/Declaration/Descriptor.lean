import ShapeContract.Value.Basic

/-!
# Path descriptors

What a schema says of one path: a kind tag, options, the descriptor of the elements of an array and
an embedded schema, which is a schema object or a block of paths of its own.
-/

set_option autoImplicit false

namespace ShapeContract

structure Descriptor where
  kind : Value
  options : Value
  caster : Option Descriptor := none
  /-- The embedded schema, if it is an object. -/
  schema : Option Value := none
  /-- The embedded schema, if it is a block of paths. -/
  block : Option (List (String × Descriptor)) := none

/-- The kinds of path that the introspection knows, and the array and mixed ones. -/
inductive SchemaKind where
  | string | number | decimal128 | boolean | date | objectId | buffer | array | embedded | mixed
deriving DecidableEq, Repr

namespace SchemaKind

def text : SchemaKind → String
  | .string => "String"
  | .number => "Number"
  | .decimal128 => "Decimal128"
  | .boolean => "Boolean"
  | .date => "Date"
  | .objectId => "ObjectID"
  | .buffer => "Buffer"
  | .array => "Array"
  | .embedded => "Embedded"
  | .mixed => "Mixed"

def label : SchemaKind → String
  | .string => "STRING"
  | .number => "NUMBER"
  | .decimal128 => "DECIMAL128"
  | .boolean => "BOOLEAN"
  | .date => "DATE"
  | .objectId => "OBJECT_ID"
  | .buffer => "BUFFER"
  | .array => "ARRAY"
  | .embedded => "EMBEDDED"
  | .mixed => "MIXED"

def all : List SchemaKind :=
  [.string, .number, .decimal128, .boolean, .date, .objectId, .buffer, .array, .embedded, .mixed]

def ofText? (s : String) : Option SchemaKind := all.find? fun k => k.text = s

def toValue (k : SchemaKind) : Value := .member "SchemaKind" k.label (.str k.text) true

/-- The kind that a native type stands for. -/
def ofNative : NativeType → SchemaKind
  | .text => .string
  | .integer => .number
  | .double => .number
  | .decimal => .decimal128
  | .boolean => .boolean
  | .datetime => .date
  | .date => .date
  | .bytes => .buffer
  | .byteArray => .buffer
  | .list => .array
  | _ => .mixed

end SchemaKind

namespace Descriptor

def ofKind (k : SchemaKind) (options : Fields Value) : Descriptor :=
  { kind := .str k.text, options := .object options }

end Descriptor

end ShapeContract
