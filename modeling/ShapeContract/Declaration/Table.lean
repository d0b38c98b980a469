import ShapeContract.Declaration.Descriptor
import ShapeContract.Failure
import ShapeContract.Value.Display

/-!
# Tables as shapes

The type of a column is known by the classes that it is an instance of, from which its family is
found by asking for one class after the other. A column is described by its type family. It is
required if it may not be null, has no default on either side and is no primary key; constraints kept
with the column win over what its type says.
-/

set_option autoImplicit false

namespace ShapeContract

/-- The classes that a column type is asked for; that of arrays is apart. -/
inductive TypeClass where
  | enum
  | uuid
  | string
  | boolean
  | integer
  | numeric
  | dateTime
  | date
  | binary
  | json
deriving DecidableEq, Repr

/-- A column type by the classes that it is an instance of, those above its own included, its length
and its stored values; or the type of arrays of another type. -/
inductive SqlType where
  | plain (classes : List TypeClass) (length : Option Nat) (stored : List String)
  | array (of : SqlType)

/-- The families of column types. -/
inductive ColumnType where
  | integer
  | text (length : Option Nat)
  | numeric
  | boolean
  | date
  | uuid
  | json
  | binary
  /-- An enumeration, by its stored values. -/
  | choice (stored : List String)
  | array (of : ColumnType)
  /-- A type of no known family. -/
  | other

namespace SqlType

/-- The family of a type. The order counts: an enumeration is an instance of the class of texts. -/
def family : SqlType → ColumnType
  | .plain classes length stored =>
    if .enum ∈ classes then .choice stored
    else if .uuid ∈ classes then .uuid
    else if .string ∈ classes then .text length
    else if .boolean ∈ classes then .boolean
    else if .integer ∈ classes then .integer
    else if .numeric ∈ classes then .numeric
    else if .dateTime ∈ classes ∨ .date ∈ classes then .date
    else if .binary ∈ classes then .binary
    else if .json ∈ classes then .json
    else .other
  | .array of => .array of.family

/-- The classes that the types of a name are instances of. It depends on the release whether floats
are instances of the class of numerics. -/
def classesOf (floatsAreNumeric : Bool) (name : String) : List TypeClass :=
  if name = "Enum" then [.enum, .string]
  else if name = "Uuid" then [.uuid]
  else if name ∈ ["String", "Text", "Unicode", "VARCHAR"] then [.string]
  else if name = "Boolean" then [.boolean]
  else if name ∈ ["Integer", "BigInteger", "SmallInteger"] then [.integer]
  else if name = "Numeric" then [.numeric]
  else if name ∈ ["Float", "Double"] then (if floatsAreNumeric then [.numeric] else [])
  else if name ∈ ["DateTime", "TIMESTAMP"] then [.dateTime]
  else if name = "Date" then [.date]
  else if name = "LargeBinary" then [.binary]
  else if name = "JSON" then [.json]
  else []

/-- A type by its name. -/
def named (floatsAreNumeric : Bool) (name : String) (length : Option Nat) (stored : List String) :
    SqlType := .plain (classesOf floatsAreNumeric name) length stored

end SqlType

inductive ColumnDefault where
  | scalar (v : Value)
  | computed

structure Column where
  key : String
  type : SqlType
  nullable : Bool
  primaryKey : Bool
  default : Option ColumnDefault
  serverDefault : Bool
  /-- The constraints kept with the column. -/
  constraints : Option Value

namespace Column

def uuidPattern : String :=
  let h (n : String) := "[0-9a-fA-F]" ++ inBraces n
  "^" ++ Text.join "-" [h "8", h "4", h "4", h "4", h "12"] ++ "$"

def typeDescriptor : ColumnType → Descriptor
  | .integer => .ofKind .number []
  | .text none => .ofKind .string []
  | .text (some n) => .ofKind .string (if n = 0 then [] else [("maxlength", .int n)])
  | .numeric => .ofKind .decimal128 []
  | .boolean => .ofKind .boolean []
  | .date => .ofKind .date []
  | .uuid => .ofKind .string [("match", .str uuidPattern)]
  | .json => .ofKind .mixed []
  | .binary => .ofKind .buffer []
  | .choice stored => .ofKind .string [("enum", .list (stored.map Value.str))]
  | .array of => { Descriptor.ofKind .array [] with caster := some (typeDescriptor of) }
  | .other => .ofKind .mixed []

/-- The family of the type of a column. -/
def family (c : Column) : ColumnType := c.type.family

def required (c : Column) : Bool :=
  !c.nullable && c.default.isNone && !c.serverDefault && !c.primaryKey

/-- Options updated by the entries of constraints. -/
def constrain (options : Fields Value) : Option Value → Except Failure (Fields Value)
  | none => .ok options
  | some (.object fs) => .ok (options.putAll fs)
  | some v =>
    match v.items? with
    | none => .error .typeMisuse
    | some [] => .ok options
    | some _ => .error .valueMisuse

def descriptor (c : Column) : Except Failure Descriptor := do
  let d := typeDescriptor c.family
  let options := d.options.fields?.getD []
  let options := options.put "required" (.bool c.required)
  let options := match c.default with
    | some (.scalar v) => options.put "default" v
    | _ => options
  let options ← constrain options c.constraints
  pure { d with options := .object options }

end Column

end ShapeContract
