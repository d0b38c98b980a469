import ShapeContract.Calendar
import ShapeContract.Fields
import ShapeContract.Number
import ShapeContract.Text.Classes

/-!
# Dynamic values

Payloads, declarations, facets and query documents are values of one type: JSON data, and beside it
what a declaration can name (types, enumerations, regular expressions, dates, rules and schema
objects). A mapping keeps the order of its entries.
-/

set_option autoImplicit false

namespace ShapeContract

/-- The types that a declaration may name directly. -/
inductive NativeType where
  | text | integer | double | decimal | boolean | datetime | date | bytes | byteArray | mapping
  | object | any | list | tuple | set | complex
deriving DecidableEq, Repr

/-- The options of a regular expression. -/
structure RegexFlags where
  ignoreCase : Bool := false
  multiLine : Bool := false
  dotAll : Bool := false
  verbose : Bool := false
deriving DecidableEq, Repr

namespace RegexFlags

/-- The letters of the options that are set. -/
def letters (f : RegexFlags) : String :=
  (if f.ignoreCase then "i" else "") ++ (if f.multiLine then "m" else "") ++
    (if f.dotAll then "s" else "") ++ (if f.verbose then "x" else "")

/-- The options that letters name; other letters name none. -/
def ofLetters (s : String) : RegexFlags :=
  let given (c : Char) : Bool := s.toList.contains c
  ⟨given 'i', given 'm', given 's', given 'x'⟩

end RegexFlags

/-- A schema object by its identity; `shown` is its text in messages. -/
structure SourceRef where
  id : Nat
  typeName : String
  shown : String
deriving DecidableEq, Repr

inductive Value where
  | null
  | bool (b : Bool)
  | int (i : Int)
  | float (x : Double)
  | str (s : String)
  | list (vs : List Value)
  | object (fs : List (String × Value))
  /-- A mapping in which some key is no text: its keys and, in the same order, its values. -/
  | mapping (keys vs : List Value)
  | tuple (vs : List Value)
  | set (vs : List Value)
  | regex (source : String) (flags : RegexFlags)
  | native (t : NativeType)
  /-- An enumeration: its name and members, none with the value of another; with `textual` its members are texts too. -/
  | enumeration (name : String) (members : List (String × Value)) (textual : Bool)
  | member (owner label : String) (value : Value) (textual : Bool)
  | datetime (t : DateTime)
  | date (d : Date)
  | callable
  /-- A built rule, as its set facets in order. -/
  | rule (facets : List (String × Value))
  | source (ref : SourceRef)

namespace Value

/-- The text that a value is, for texts and members of textual enumerations. -/
def text? : Value → Option String
  | .str s => some s
  | .member _ _ (.str s) true => some s
  | _ => none

@[simp] theorem text?_str (s : String) : (Value.str s).text? = some s := rfl

def isText (v : Value) : Bool := v.text?.isSome

/-- The entries of a mapping with texts as keys. -/
def fields? : Value → Option (Fields Value)
  | .object fs => some fs
  | _ => none

/-- The entries of a mapping under those of its keys that are texts. -/
def members? : Value → Option (Fields Value)
  | .object fs => some fs
  | .mapping ks vs => some ((ks.zip vs).filterMap fun e => e.1.text?.map fun name => (name, e.2))
  | _ => none

def isMapping : Value → Bool
  | .object _ => true
  | .mapping _ _ => true
  | _ => false

def isNull : Value → Bool
  | .null => true
  | _ => false

/-- The value unless it is null. -/
def present? : Value → Option Value
  | .null => none
  | v => some v

def truthy : Value → Bool
  | .null => false
  | .bool b => b
  | .int i => i ≠ 0
  | .float x => !x.isZero
  | .str s => s ≠ ""
  | .list vs => !vs.isEmpty
  | .object fs => !fs.isEmpty
  | .mapping ks _ => !ks.isEmpty
  | .tuple vs => !vs.isEmpty
  | .set vs => !vs.isEmpty
  | .member _ _ (.str s) true => s ≠ ""
  | _ => true

/-- Whether a value can be called; such a default is no default of the field. -/
def isCallable : Value → Bool
  | .callable => true
  | .native _ => true
  | .enumeration _ _ _ => true
  | _ => false

end Value

namespace NativeType

def all : List NativeType :=
  [.text, .integer, .double, .decimal, .boolean, .datetime, .date, .bytes, .byteArray, .mapping,
    .object, .any, .list, .tuple, .set, .complex]

/-- The name under which a declaration gives the type. -/
def name : NativeType → String
  | .text => "str"
  | .integer => "int"
  | .double => "float"
  | .decimal => "Decimal"
  | .boolean => "bool"
  | .datetime => "datetime"
  | .date => "date"
  | .bytes => "bytes"
  | .byteArray => "bytearray"
  | .mapping => "dict"
  | .object => "object"
  | .any => "Any"
  | .list => "list"
  | .tuple => "tuple"
  | .set => "set"
  | .complex => "complex"

def ofName? (s : String) : Option NativeType := all.find? fun t => t.name = s

def shown : NativeType → String
  | .text => "<class 'str'>"
  | .integer => "<class 'int'>"
  | .double => "<class 'float'>"
  | .decimal => "<class 'decimal.Decimal'>"
  | .boolean => "<class 'bool'>"
  | .datetime => "<class 'datetime.datetime'>"
  | .date => "<class 'datetime.date'>"
  | .bytes => "<class 'bytes'>"
  | .byteArray => "<class 'bytearray'>"
  | .mapping => "<class 'dict'>"
  | .object => "<class 'object'>"
  | .any => "typing.Any"
  | .list => "<class 'list'>"
  | .tuple => "<class 'tuple'>"
  | .set => "<class 'set'>"
  | .complex => "<class 'complex'>"

end NativeType

namespace Value

/-- The name of the kind of value, as messages give it. -/
def typeName : Value → String
  | .null => "NoneType"
  | .bool _ => "bool"
  | .int _ => "int"
  | .float _ => "float"
  | .str _ => "str"
  | .list _ => "list"
  | .object _ => "dict"
  | .mapping _ _ => "dict"
  | .tuple _ => "tuple"
  | .set _ => "set"
  | .regex _ _ => "Pattern"
  | .native .any => "_AnyMeta"
  | .native _ => "type"
  | .enumeration _ _ _ => "EnumType"
  | .member owner _ _ _ => owner
  | .datetime _ => "datetime"
  | .date _ => "date"
  | .callable => "function"
  | .rule _ => "Rule"
  | .source r => r.typeName

/-- Whether a value can be looked up in a set or be the key of a mapping. -/
def hashable : Value → Bool
  | .list _ => false
  | .object _ => false
  | .mapping _ _ => false
  | .set _ => false
  | .rule _ => false
  | .tuple vs => hashableAll vs
  | _ => true
where
  hashableAll : List Value → Bool
    | [] => true
    | v :: rest => v.hashable && hashableAll rest

/-- Whether a value can be sought in a set; a set is sought by its members. -/
def seekable : Value → Bool
  | .set _ => true
  | v => v.hashable

/-- The number that a value is; the truth values count as zero and one. -/
def number? : Value → Option Number
  | .bool b => some (.int (if b then 1 else 0))
  | .int i => some (.int i)
  | .float x => some (.double x)
  | _ => none

end Value

def Number.toValue : Number → Value
  | .int i => .int i
  | .double x => .float x

end ShapeContract
