import ShapeContract.Overrides.Basic
import ShapeContract.Rule.Record
import ShapeContract.Rule.Tree

/-!
# Wire schemas

A rule tree is written as a JSON-Schema document. Bounds of dates have no keyword and are left out;
a list of required names is written only if it has a name. Without a schema the document is made
from the overrides alone.
-/

set_option autoImplicit false

namespace ShapeContract.Wire

def objectIdPattern : String := "^[0-9a-fA-F]\x7b24\x7d$"

def stringKeywords (f : Facets) : Fields Value :=
  ("type", .str "string") :: Rule.entry "minLength" f.minLength ++
    Rule.entry "maxLength" f.maxLength ++
    Rule.entry "pattern" (f.pattern.filter Value.truthy) ++
    Rule.entry "enum" ((f.enum.filter fun vs => !vs.isEmpty).map Value.list)

def numberKeywords (f : Facets) : Fields Value :=
  ("type", .str "number") :: Rule.entry "minimum" f.min ++ Rule.entry "maximum" f.max

def dateKeywords : Fields Value := [("type", .str "string"), ("format", .str "date-time")]

def objectIdKeywords : Fields Value :=
  [("type", .str "string"), ("pattern", .str objectIdPattern)]

/-- The list of required names, left out if empty. -/
def requiredEntry (names : List Value) : Fields Value :=
  if names.isEmpty then [] else [("required", .list names)]

def requiredNames : List (String × Rule) → List Value
  | [] => []
  | (name, c) :: rest =>
    if c.isRequired then .str name :: requiredNames rest else requiredNames rest

def objectKeywords (allowUnknown : Bool) (properties : Fields Value) (required : List Value) :
    Fields Value :=
  [("type", .str "object"), ("properties", .object properties)] ++ requiredEntry required ++
    [("additionalProperties", .bool allowUnknown)]

def arrayKeywords (f : Facets) (items : Value) : Fields Value :=
  [("type", .str "array"), ("items", items)] ++ Rule.entry "minItems" f.minItems ++
    Rule.entry "maxItems" f.maxItems

mutual

/-- The document of one node. -/
def ofRule (allowUnknown : Bool) : Rule → Value
  | ⟨f, items, children⟩ =>
    let keywords := match f.type with
      | .object =>
        objectKeywords allowUnknown (ofChildren allowUnknown children)
          (requiredNames (children.getD []))
      | .array => arrayKeywords f (ofItems allowUnknown items)
      | .string => stringKeywords f
      | .number => numberKeywords f
      | .boolean => [("type", .str "boolean")]
      | .date => dateKeywords
      | .objectId => objectIdKeywords
      | .mixed => []
      | .buffer => []
    .object (keywords ++ Rule.entry "default" f.default)

def ofItems (allowUnknown : Bool) : Option Rule → Value
  | none => .object []
  | some r => ofRule allowUnknown r

def ofChildren (allowUnknown : Bool) : Option (List (String × Rule)) → List (String × Value)
  | none => []
  | some cs => ofFields allowUnknown cs

def ofFields (allowUnknown : Bool) : List (String × Rule) → List (String × Value)
  | [] => []
  | (name, r) :: rest => (name, ofRule allowUnknown r) :: ofFields allowUnknown rest

end

/-- The document of a rule tree; of the root only the children count. -/
def ofTree (allowUnknown : Bool) (tree : Rule) : Value :=
  ofRule allowUnknown ⟨Rule.empty.facets, none, some tree.kids⟩

/-- A definition without a schema: a text unless it says otherwise; a rule is taken as it is. -/
def openRule : Value → Except Failure Rule
  | .rule fs => Rule.ofValue (.rule fs)
  | .object fs => Rule.ofValue (.object (Fields.putAll [("type", .str "string")] fs))
  | _ => .error .typeMisuse

def openRules : Fields Value → Except Failure (Fields Rule)
  | [] => .ok []
  | (name, d) :: rest => do
    let r ← openRule d
    let rs ← openRules rest
    pure ((name, r) :: rs)

/-- Property names: the appended ones, then the included ones that are new. -/
def openNames (appended : List String) (included : List Value) : List Value :=
  Value.distinct (appended.map Value.str ++ included)

/-- The names required without a schema: those of appended rules, then those listed, less the
optional ones. -/
def openRequired (o : Overrides) (rules : Fields Rule) : List Value :=
  let fromRules := requiredNames rules
  let all := o.required.foldl (fun acc v => if v.among acc then acc else acc ++ [v]) fromRules
  all.filter fun v => !v.among o.optional

/-- The document made from overrides alone. -/
def ofOverrides (allowUnknown : Bool) (o : Overrides) : Except Failure Value := do
  let rules ← openRules o.appended
  Overrides.checkPaths o.included
  let docs := rules.map fun e => (e.1, ofRule allowUnknown e.2)
  let names := openNames (rules.map Prod.fst) o.included
  let extra := names.drop rules.length
  let properties := Entries.toValue (names.zip
    (docs.map Prod.snd ++ extra.map fun _ => .object [("type", .str "string")]))
  if !(requiredNames rules ++ o.required).isEmpty then Overrides.checkPaths o.optional
  if !o.required.all Value.seekable then throw .typeMisuse
  let required := openRequired o rules
  pure (.object ([("type", .str "object"), ("properties", properties)] ++ requiredEntry required ++
    [("additionalProperties", .bool allowUnknown)]))

mutual

/-- The property paths of a document, depth first: each property, its own properties, its items. -/
def order (path : String) : Value → List Value
  | .object fs => orderProperties path fs ++ orderItems path fs
  | _ => []

def orderProperties (path : String) : List (String × Value) → List Value
  | [] => []
  | (k, v) :: rest =>
    if k = "properties" then
      match v with
      | .object ps => orderFields path ps
      | .mapping ks ds => orderMapping path ks ds
      | _ => []
    else orderProperties path rest

def orderFields (path : String) : List (String × Value) → List Value
  | [] => []
  | (name, d) :: rest =>
    .str (extendPath path name) :: order (extendPath path name) d ++ orderFields path rest

def orderMapping (path : String) : List Value → List Value → List Value
  | k :: ks, d :: ds => k :: order (extendPath path k.display) d ++ orderMapping path ks ds
  | _, _ => []

def orderItems (path : String) : List (String × Value) → List Value
  | [] => []
  | (k, v) :: rest =>
    if k = "items" then order (path ++ "[]") v else orderItems path rest

end

end ShapeContract.Wire
