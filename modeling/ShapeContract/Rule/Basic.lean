import ShapeContract.Value.Basic

/-!
# Rules

A rule constrains one value; a rule tree is an object rule that describes a document. Facets that
are not set are absent; a declared default may be null, so an absent default is something else.
-/

set_option autoImplicit false

namespace ShapeContract

/-- The kinds of value that a rule can ask for. -/
inductive PrimitiveType where
  | string | number | boolean | date | objectId | array | object | mixed | buffer
deriving DecidableEq, Repr

namespace PrimitiveType

def text : PrimitiveType → String
  | .string => "string"
  | .number => "number"
  | .boolean => "boolean"
  | .date => "date"
  | .objectId => "objectId"
  | .array => "array"
  | .object => "object"
  | .mixed => "mixed"
  | .buffer => "buffer"

/-- The name of the type as a member of its enumeration. -/
def label : PrimitiveType → String
  | .string => "STRING"
  | .number => "NUMBER"
  | .boolean => "BOOLEAN"
  | .date => "DATE"
  | .objectId => "OBJECT_ID"
  | .array => "ARRAY"
  | .object => "OBJECT"
  | .mixed => "MIXED"
  | .buffer => "BUFFER"

def all : List PrimitiveType :=
  [.string, .number, .boolean, .date, .objectId, .array, .object, .mixed, .buffer]

def ofText? (s : String) : Option PrimitiveType := all.find? fun t => t.text = s

theorem ofText?_text (t : PrimitiveType) : ofText? t.text = some t := by cases t <;> rfl

def toValue (t : PrimitiveType) : Value := .member "PrimitiveType" t.label (.str t.text) true

end PrimitiveType

/-- What a rule says of its own value, its element and child rules left out. -/
structure Facets where
  type : PrimitiveType
  required : Option Value := none
  minLength : Option Value := none
  maxLength : Option Value := none
  pattern : Option Value := none
  enum : Option (List Value) := none
  min : Option Value := none
  max : Option Value := none
  minItems : Option Value := none
  maxItems : Option Value := none
  default : Option Value := none

structure Rule where
  facets : Facets
  items : Option Rule := none
  children : Option (List (String × Rule)) := none

namespace Rule

def type (r : Rule) : PrimitiveType := r.facets.type

/-- A rule of a type with no facet; an object has no children yet. -/
def bare (t : PrimitiveType) : Rule :=
  ⟨⟨t, none, none, none, none, none, none, none, none, none, none⟩, none,
    if t = .object then some [] else none⟩

/-- The root of a document without fields. -/
def empty : Rule := bare .object

def kids (r : Rule) : Fields Rule := r.children.getD []

def isRequired (r : Rule) : Bool := r.facets.required.any Value.truthy

def hasDefault (r : Rule) : Bool := r.facets.default.isSome

/-- An object without a child mapping gets an empty one. -/
def settled (r : Rule) : Rule :=
  if r.type = .object ∧ r.children.isNone then ⟨r.facets, r.items, some []⟩ else r

def withRequired (r : Rule) (b : Bool) : Rule :=
  ⟨{ r.facets with required := some (.bool b) }, r.items, r.children⟩

end Rule

end ShapeContract
