import ShapeContract.Wire.Check

/-!
# Rules of the schema language

`findings` lists what is wrong with a document that should be a schema, in a fixed order of keywords
that is not the order of the document. A regular expression can fail to compile in a way that is no
finding but ends the check; so does a message that quotes an integer with too many digits.
-/

set_option autoImplicit false

namespace ShapeContract.Wire

/-- A broken rule at a place in the document, or a failure that ends the check. -/
inductive Finding where
  | breach (path : List String) (reason : String)
  | abort (e : Failure)

namespace Finding

/-- A broken rule whose message quotes the value. -/
def about (v : Value) (reason : String) : Finding :=
  if v.writable then .breach [] reason else .abort .valueMisuse

def under (step : String) : Finding → Finding
  | .breach path reason => .breach (step :: path) reason
  | .abort e => .abort e

def aborts : Finding → Bool
  | .breach _ _ => false
  | .abort _ => true

end Finding

namespace Metaschema

/-- The finding of a keyword whose operand has none of the types. -/
def typed (ts : List TypeName) (v : Value) : List Finding :=
  if ts.any fun t => t.admits v then [] else [.about v (typeMessage v ts)]

def isNegative (v : Value) : Bool := v.number?.any fun n => n.lt (.int 0)

/-- A whole number that is not negative. -/
def count (v : Value) : List Finding :=
  if !TypeName.integer.admits v then typed [.integer] v
  else if isNegative v then [.about v (v.shown ++ " is less than the minimum of 0")]
  else []

def regex [CharacterNames] (v : Value) : List Finding :=
  match v.text? with
  | none => typed [.string] v
  | some s =>
    match Pattern.compile {} s with
    | .ok _ => []
    | .error (.misuse .pattern) => [.breach [] (v.shown ++ " is not a 'regex'")]
    | .error e => [.abort e]

/-- A list of texts, no two of them equal. -/
def names (v : Value) : List Finding :=
  match v with
  | .list vs =>
    (vs.zipIdx.flatMap fun e => (typed [.string] e.1).map (Finding.under (Decimal.text e.2))) ++
      (if repeats vs then [.about v (v.shown ++ " has non-unique elements")] else [])
  | v => typed [.array] v

def noAlternative (v : Value) : Finding :=
  .about v (v.shown ++ " is not valid under any of the given schemas")

/-- One alternative or the other; both are looked through to their ends. -/
def either (v : Value) (first second : List Finding) : List Finding :=
  match first.find? Finding.aborts with
  | some f => [f]
  | none =>
    if first.isEmpty then []
    else
      match second.find? Finding.aborts with
      | some f => [f]
      | none => if second.isEmpty then [] else [noAlternative v]

/-- The name of a type, or a list of different ones that is not empty. -/
def typeOperand (v : Value) : List Finding :=
  if (TypeName.ofValue? v).isSome then []
  else
    match v with
    | .list (t :: ts) =>
      if (t :: ts).all (fun t => (TypeName.ofValue? t).isSome) && !repeats (t :: ts) then []
      else [noAlternative v]
    | v => [noAlternative v]

/-- The findings of a keyword, if the document has it. -/
def keyword (fs : Fields Value) (name : String) (rule : Value → List Finding) : List Finding :=
  match fs.get? name with
  | some v => (rule v).map (Finding.under name)
  | none => []

mutual

def findings [CharacterNames] : Value → List Finding
  | .object fs =>
    keyword fs "maximum" (typed [.number]) ++ keyword fs "minimum" (typed [.number]) ++
      keyword fs "maxLength" count ++ keyword fs "minLength" count ++ keyword fs "pattern" regex ++
      itemsIn fs ++ keyword fs "maxItems" count ++ keyword fs "minItems" count ++
      keyword fs "required" names ++ additionalIn fs ++ propertiesIn fs ++
      keyword fs "enum" (typed [.array]) ++ keyword fs "type" typeOperand ++
      keyword fs "format" (typed [.string])
  | .mapping _ _ => []
  | v => typed [.object, .boolean] v
termination_by structural v => v

def itemsIn [CharacterNames] : List (String × Value) → List Finding
  | [] => []
  | (name, v) :: rest =>
    if name = "items" then (either v (findings v) (schemaList v)).map (Finding.under "items")
    else itemsIn rest
termination_by structural fs => fs

/-- A list of schemas that is not empty. -/
def schemaList [CharacterNames] : Value → List Finding
  | .list [] => [.breach [] "[] should be non-empty"]
  | .list (d :: ds) => each (d :: ds)
  | v => typed [.array] v
termination_by structural v => v

def each [CharacterNames] : List Value → List Finding
  | [] => []
  | d :: ds => findings d ++ each ds
termination_by structural ds => ds

def additionalIn [CharacterNames] : List (String × Value) → List Finding
  | [] => []
  | (name, v) :: rest =>
    if name = "additionalProperties" then (findings v).map (Finding.under "additionalProperties")
    else additionalIn rest
termination_by structural fs => fs

def propertiesIn [CharacterNames] : List (String × Value) → List Finding
  | [] => []
  | (name, v) :: rest =>
    if name = "properties" then (members v).map (Finding.under "properties") else propertiesIn rest
termination_by structural fs => fs

def members [CharacterNames] : Value → List Finding
  | .object ps => ofFields ps
  | .mapping ks ds => ofPairs ks ds
  | v => typed [.object] v
termination_by structural v => v

def ofFields [CharacterNames] : List (String × Value) → List Finding
  | [] => []
  | (name, d) :: rest => (findings d).map (Finding.under name) ++ ofFields rest
termination_by structural ps => ps

def ofPairs [CharacterNames] : List Value → List Value → List Finding
  | k :: ks, d :: ds => (findings d).map (Finding.under k.display) ++ ofPairs ks ds
  | _, _ => []
termination_by structural _ ds => ds

end

end Metaschema

end ShapeContract.Wire
