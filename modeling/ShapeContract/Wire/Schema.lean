import ShapeContract.Pattern.Reader
import ShapeContract.Value.Basic

/-!
# Schemas of the wire

A document of the schema language, read once: its keywords in their own order, each with its operand
in its own type and its regular expression compiled. Keywords that the language does not know are
not kept.
-/

set_option autoImplicit false

namespace ShapeContract.Wire

/-- The types that a schema can ask for. -/
inductive TypeName where
  | array | boolean | integer | null | number | object | string
deriving DecidableEq, Repr

namespace TypeName

def text : TypeName → String
  | .array => "array"
  | .boolean => "boolean"
  | .integer => "integer"
  | .null => "null"
  | .number => "number"
  | .object => "object"
  | .string => "string"

def all : List TypeName := [.array, .boolean, .integer, .null, .number, .object, .string]

def ofText? (s : String) : Option TypeName := all.find? fun t => t.text = s

/-- The type that a value names. -/
def ofValue? (v : Value) : Option TypeName := v.text?.bind ofText?

/-- Whether a value is of the type: truth values are no numbers, and a double without a fraction is
an integer. -/
def admits : TypeName → Value → Bool
  | .array, .list _ => true
  | .boolean, .bool _ => true
  | .integer, .int _ => true
  | .integer, .float x => x.integral?.isSome
  | .null, .null => true
  | .number, .int _ => true
  | .number, .float _ => true
  | .object, v => v.isMapping
  | .string, v => v.isText
  | _, _ => false

theorem ofText?_text (t : TypeName) : ofText? t.text = some t := by cases t <;> rfl

end TypeName

mutual

inductive Schema where
  | always
  | never
  | document (keywords : List Keyword)

inductive Keyword where
  | type (t : TypeName)
  | types (ts : List TypeName)
  | properties (ps : List (String × Schema))
  | required (names : List String)
  | additional (s : Schema)
  | items (s : Schema)
  /-- One schema for each of the leading items. -/
  | itemList (ss : List Schema)
  | minItems (n : Number)
  | maxItems (n : Number)
  | minLength (n : Number)
  | maxLength (n : Number)
  | minimum (n : Number)
  | maximum (n : Number)
  | pattern (p : Pattern)
  | enum (vs : List Value)
  | format (name : String)
  | default (v : Value)

end

namespace Keyword

/-- The single type that a list of keywords asks for. -/
def declared? (ks : List Keyword) : Option TypeName :=
  ks.findSome? fun k => match k with
    | .type t => some t
    | _ => none

/-- The declared properties. -/
def propertiesOf (ks : List Keyword) : List (String × Schema) :=
  (ks.findSome? fun k => match k with
    | .properties ps => some ps
    | _ => none).getD []

def default? (ks : List Keyword) : Option Value :=
  ks.findSome? fun k => match k with
    | .default v => some v
    | _ => none

/-- A keyword whose operand has no parts that are schemas. -/
def ofPlain? [CharacterNames] (name : String) (v : Value) : Option Keyword :=
  match name with
  | "type" =>
    match v with
    | .list vs => (vs.mapM TypeName.ofValue?).map .types
    | v => (TypeName.ofValue? v).map .type
  | "required" =>
    match v with
    | .list vs => (vs.mapM Value.text?).map .required
    | _ => none
  | "minItems" => v.number?.map .minItems
  | "maxItems" => v.number?.map .maxItems
  | "minLength" => v.number?.map .minLength
  | "maxLength" => v.number?.map .maxLength
  | "minimum" => v.number?.map .minimum
  | "maximum" => v.number?.map .maximum
  | "pattern" => v.text?.bind fun s => (Pattern.compile {} s).toOption.map .pattern
  | "enum" =>
    match v with
    | .list vs => some (.enum vs)
    | _ => none
  | "format" => v.text?.map .format
  | "default" => some (.default v)
  | _ => none

end Keyword

namespace Schema

mutual

/-- Reads a schema that keeps to the rules of the language. -/
def ofDocument [CharacterNames] : Value → Schema
  | .object fs => .document (keywordsOf fs)
  | .bool false => .never
  | _ => .always
termination_by structural v => v

def keywordsOf [CharacterNames] : List (String × Value) → List Keyword
  | [] => []
  | (name, v) :: rest =>
    let k : Option Keyword :=
      if name = "properties" then some (.properties (propertiesOf v))
      else if name = "additionalProperties" then some (.additional (ofDocument v))
      else if name = "items" then
        match v with
        | .list ds => some (.itemList (listOf ds))
        | v => some (.items (ofDocument v))
      else Keyword.ofPlain? name v
    k.toList ++ keywordsOf rest
termination_by structural fs => fs

def propertiesOf [CharacterNames] : Value → List (String × Schema)
  | .object ps => membersOf ps
  | .mapping ks ds => pairedOf ks ds
  | _ => []
termination_by structural v => v

def membersOf [CharacterNames] : List (String × Value) → List (String × Schema)
  | [] => []
  | (name, d) :: rest => (name, ofDocument d) :: membersOf rest
termination_by structural fs => fs

/-- Properties whose names are no texts describe no member of a payload. -/
def pairedOf [CharacterNames] : List Value → List Value → List (String × Schema)
  | k :: ks, d :: ds => (k.text?.toList.map fun name => (name, ofDocument d)) ++ pairedOf ks ds
  | _, _ => []
termination_by structural _ ds => ds

def listOf [CharacterNames] : List Value → List Schema
  | [] => []
  | d :: rest => ofDocument d :: listOf rest
termination_by structural ds => ds

end

/-- The default that a schema declares. -/
def default? : Schema → Option Value
  | .document ks => Keyword.default? ks
  | _ => none

end Schema

end ShapeContract.Wire
