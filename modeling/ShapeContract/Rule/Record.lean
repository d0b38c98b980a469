import ShapeContract.Failure
import ShapeContract.Rule.Basic
import ShapeContract.Value.Display

/-!
# Rules as records

A rule is written as a mapping of its set facets under their wire names, and read from such a
mapping, in which the longer facets may also have their names with underscores. Writing drops a null
default, and nothing else: `Rule.forgetNullDefaults` is what a rule is after both.
-/

set_option autoImplicit false

namespace ShapeContract

namespace Rule

/-- The value under a facet's wire name, else under its other name; null counts as unset. -/
def facet? (fs : Fields Value) (name other : String) : Option Value :=
  match fs.get? name with
  | some v => v.present?
  | none => (fs.get? other).bind Value.present?

/-- The text of a pattern facet: a text as it is, of a regular expression its source. -/
def patternOf : Value → Except Failure (Option Value)
  | .regex s _ => .ok (some (.str s))
  | .rule fs => .ok ((Fields.get? fs "pattern").bind Value.present?)
  | v => if v.isText then .ok (some v) else .error .attributeMisuse

def typeOf (v : Value) : Except Failure PrimitiveType :=
  match v.text?.bind PrimitiveType.ofText? with
  | some t => .ok t
  | none => .error (.unknownType v.shown)

/-- The facets of a record, after its element and child rules have been read. -/
def facetsOf (fs : Fields Value) : Except Failure Facets := do
  let enum ← match facet? fs "enum" "enum" with
    | none => pure none
    | some v =>
      match v.items? with
      | some vs => pure (some vs)
      | none => throw .typeMisuse
  let pattern ← match facet? fs "pattern" "pattern" with
    | none => pure none
    | some v => patternOf v
  let type ← match fs.get? "type" with
    | none => throw .typeMisuse
    | some v => typeOf v
  pure
    { type := type
      required := facet? fs "required" "required"
      minLength := facet? fs "minLength" "min_length"
      maxLength := facet? fs "maxLength" "max_length"
      pattern := pattern
      enum := enum
      min := facet? fs "min" "min"
      max := facet? fs "max" "max"
      minItems := facet? fs "minItems" "min_items"
      maxItems := facet? fs "maxItems" "max_items"
      default := fs.get? "default" }

mutual

/-- Reads a rule from a record. -/
def ofValue : Value → Except Failure Rule
  | .object fs => do
    let items ← itemsIn fs
    let children ← childrenIn fs
    let facets ← facetsOf fs
    pure (settled ⟨facets, items, children⟩)
  | .rule fs => do
    let items ← itemsIn fs
    let children ← childrenIn fs
    let facets ← facetsOf fs
    pure (settled ⟨facets, items, children⟩)
  | _ => throw .typeMisuse

def itemsIn : List (String × Value) → Except Failure (Option Rule)
  | [] => pure none
  | (k, v) :: rest =>
    if k = "items" then
      match v with
      | .null => pure none
      | v => return some (← ofValue v)
    else itemsIn rest

def childrenIn : List (String × Value) → Except Failure (Option (List (String × Rule)))
  | [] => pure none
  | (k, v) :: rest =>
    if k = "children" then
      match v with
      | .null => pure none
      | .object cs => return some (← ofFields cs)
      | .rule _ => throw .typeMisuse
      | _ => throw .attributeMisuse
    else childrenIn rest

def ofFields : List (String × Value) → Except Failure (List (String × Rule))
  | [] => pure []
  | (name, v) :: rest => do
    let r ← ofValue v
    let rs ← ofFields rest
    pure ((name, r) :: rs)

end

def entry (name : String) : Option Value → Fields Value
  | some v => [(name, v)]
  | none => []

/-- The entries before those of the element and child rules. -/
def leadingEntries (type : Value) (f : Facets) : Fields Value :=
  ("type", type) :: entry "required" f.required ++ entry "minLength" f.minLength ++
    entry "maxLength" f.maxLength ++ entry "pattern" f.pattern ++
    entry "enum" (f.enum.map Value.list) ++ entry "min" f.min ++ entry "max" f.max

def countEntries (f : Facets) : Fields Value :=
  entry "minItems" f.minItems ++ entry "maxItems" f.maxItems

mutual

/-- Writes a rule as a record: set facets only, a null default left out. -/
def toValue : Rule → Value
  | ⟨f, items, children⟩ =>
    .object (leadingEntries (.str f.type.text) f ++ entry "items" (itemsValue items) ++
      countEntries f ++ entry "children" (childrenValue children) ++
      entry "default" (f.default.bind Value.present?))

def itemsValue : Option Rule → Option Value
  | none => none
  | some r => some (toValue r)

def childrenValue : Option (List (String × Rule)) → Option Value
  | none => none
  | some cs => some (.object (fieldValues cs))

def fieldValues : List (String × Rule) → List (String × Value)
  | [] => []
  | (name, r) :: rest => (name, toValue r) :: fieldValues rest

end

mutual

/-- The rule itself as a value, a null default included. -/
def embed : Rule → Value
  | ⟨f, items, children⟩ =>
    .rule (leadingEntries f.type.toValue f ++ entry "items" (embedItems items) ++
      countEntries f ++ entry "children" (embedChildren children) ++ entry "default" f.default)

def embedItems : Option Rule → Option Value
  | none => none
  | some r => some (embed r)

def embedChildren : Option (List (String × Rule)) → Option Value
  | none => none
  | some cs => some (.object (embedFields cs))

def embedFields : List (String × Rule) → List (String × Value)
  | [] => []
  | (name, r) :: rest => (name, embed r) :: embedFields rest

end

def forgetNull : Option Value → Option Value
  | some .null => none
  | d => d

mutual

/-- The rule with every null default, at any depth, left out. -/
def forgetNullDefaults : Rule → Rule
  | ⟨f, items, children⟩ =>
    ⟨{ f with default := forgetNull f.default }, forgetItems items, forgetChildren children⟩

def forgetItems : Option Rule → Option Rule
  | none => none
  | some r => some (forgetNullDefaults r)

def forgetChildren : Option (List (String × Rule)) → Option (List (String × Rule))
  | none => none
  | some cs => some (forgetFields cs)

def forgetFields : List (String × Rule) → List (String × Rule)
  | [] => []
  | (name, r) :: rest => (name, forgetNullDefaults r) :: forgetFields rest

end

mutual

/-- Whether some node declares the default null. -/
def hasNullDefault : Rule → Bool
  | ⟨f, items, children⟩ =>
    f.default.any Value.isNull || itemsHaveNullDefault items || childrenHaveNullDefault children

def itemsHaveNullDefault : Option Rule → Bool
  | none => false
  | some r => hasNullDefault r

def childrenHaveNullDefault : Option (List (String × Rule)) → Bool
  | none => false
  | some cs => fieldsHaveNullDefault cs

def fieldsHaveNullDefault : List (String × Rule) → Bool
  | [] => false
  | (_, r) :: rest => hasNullDefault r || fieldsHaveNullDefault rest

end

end Rule

end ShapeContract
