import ShapeContract.Pattern.Matcher
import ShapeContract.Text.Split
import ShapeContract.Value.Entries
import ShapeContract.Value.Writable
import ShapeContract.Wire.Equality
import ShapeContract.Wire.Schema
import ShapeContract.Wire.Moment

/-!
# Checking values against schemas

`check` lists every violation of a value, keyword by keyword in the order of the schema. A missing
member is reported at its own path. What no value satisfies is reported at the path of the schema
around it.
-/

set_option autoImplicit false

namespace ShapeContract.Wire

/-- A violated keyword, with the names and indexes that lead to the value. -/
structure Violation where
  path : List String
  keyword : String
  message : String
  /-- Whether the message can be written: no integer that it quotes has too many digits. -/
  writable : Bool
deriving DecidableEq, Repr

namespace Violation

def here (keyword message : String) (quoted : List Value) : Violation :=
  ⟨[], keyword, message, Value.writableAll quoted⟩

def under (step : String) (e : Violation) : Violation := { e with path := step :: e.path }

/-- The dotted path, empty at the root. -/
def field (e : Violation) : String := Text.join "." e.path

end Violation

/-- The violation of a keyword unless it holds; the message quotes values. -/
def demand (holds : Bool) (keyword message : String) (quoted : List Value) : List Violation :=
  if holds then [] else [.here keyword message quoted]

def typeMessage (v : Value) (ts : List TypeName) : String :=
  v.shown ++ " is not of type " ++ Text.join ", " (ts.map fun t => Text.quoted t.text)

def checkTypes (ts : List TypeName) (v : Value) : List Violation :=
  demand (ts.any fun t => t.admits v) "type" (typeMessage v ts) [v]

def countOf (n : Nat) : Number := .int n

def checkLeast (keyword : String) (limit : Number) (count : Nat) (v : Value) : List Violation :=
  demand (!(countOf count).lt limit) keyword
    (v.shown ++ (if limit.same (.int 1) then " should be non-empty" else " is too short")) [v]

def checkMost (keyword : String) (limit : Number) (count : Nat) (v : Value) : List Violation :=
  demand (!limit.lt (countOf count)) keyword
    (v.shown ++ (if limit.same (.int 0) then " is expected to be empty" else " is too long")) [v]

/-- The entries of a mapping whose keys are not declared; a key that is no text never is. -/
def extras (declared : List String) (v : Value) : Entries :=
  (v.entries?.getD []).filter fun e => !e.1.text?.any (· ∈ declared)

def extrasMessage (es : Entries) : String :=
  let keys := (es.map Prod.fst).mergeSort fun a b => a.display ≤ b.display
  "Additional properties are not allowed (" ++ Text.join ", " (keys.map Value.shown) ++
    (if keys.length = 1 then " was" else " were") ++ " unexpected)"

/-- The members that a value lacks, in the order in which they are asked for. -/
def missing (names : List String) (fs : Fields Value) : List Violation :=
  (names.filter fun name => !fs.contains name).map fun name =>
    ⟨[name], "required", Text.quoted name ++ " is a required property", true⟩

/-- Checks a keyword whose operand has no parts that are schemas. -/
def Keyword.checkPlain (k : Keyword) (v : Value) : List Violation :=
  match k with
  | .type t => checkTypes [t] v
  | .types ts => checkTypes ts v
  | .required names =>
    match v.members? with
    | some fs => missing names fs
    | none => []
  | .minItems n =>
    match v with
    | .list vs => checkLeast "minItems" n vs.length v
    | _ => []
  | .maxItems n =>
    match v with
    | .list vs => checkMost "maxItems" n vs.length v
    | _ => []
  | .minLength n =>
    match v.text? with
    | some s => checkLeast "minLength" n s.length v
    | none => []
  | .maxLength n =>
    match v.text? with
    | some s => checkMost "maxLength" n s.length v
    | none => []
  | .minimum n =>
    match v with
    | .int i => checkMinimum n (.int i) v
    | .float x => checkMinimum n (.double x) v
    | _ => []
  | .maximum n =>
    match v with
    | .int i => checkMaximum n (.int i) v
    | .float x => checkMaximum n (.double x) v
    | _ => []
  | .pattern p =>
    match v.text? with
    | some s =>
      demand (Pattern.found p.node s) "pattern"
        (v.shown ++ " does not match " ++ Text.quoted p.source) [v]
    | none => []
  | .enum vs =>
    demand (vs.any fun w => same w v) "enum" (v.shown ++ " is not one of " ++ (Value.list vs).shown)
      [v, .list vs]
  | .format name =>
    match v.text? with
    | some s =>
      demand (name ≠ "date-time" || isMoment s) "format"
        (v.shown ++ " is not a " ++ Text.quoted name) [v]
    | none => []
  | _ => []
where
  checkMinimum (limit x : Number) (v : Value) : List Violation :=
    demand (!x.lt limit) "minimum"
      (v.shown ++ " is less than the minimum of " ++ limit.toValue.shown) [v, limit.toValue]
  checkMaximum (limit x : Number) (v : Value) : List Violation :=
    demand (!limit.lt x) "maximum"
      (v.shown ++ " is greater than the maximum of " ++ limit.toValue.shown) [v, limit.toValue]

/-- The violations of a part below its step; what nothing satisfies has no step of its own. -/
def within (step : String) (s : Schema) (es : List Violation) : List Violation :=
  match s with
  | .document _ => es.map (Violation.under step)
  | _ => es

mutual

/-- The violations of a value, in the order of the keywords. -/
def check : Schema → Value → List Violation
  | .always, _ => []
  | .never, v => [.here "None" ("False schema does not allow " ++ v.shown) [v]]
  | .document ks, v => checkAll ((Keyword.propertiesOf ks).map Prod.fst) ks v
termination_by structural s => s

def checkAll (declared : List String) : List Keyword → Value → List Violation
  | [], _ => []
  | k :: rest, v => checkKeyword declared k v ++ checkAll declared rest v
termination_by structural ks => ks

/-- The violations of one keyword beside the declared properties. -/
def checkKeyword (declared : List String) : Keyword → Value → List Violation
  | .properties ps, v =>
    match v.members? with
    | some fs => checkProperties ps fs
    | none => []
  | .additional .never, v =>
    demand (extras declared v).isEmpty "additionalProperties" (extrasMessage (extras declared v))
      ((extras declared v).map Prod.fst)
  | .additional s, v =>
    (extras declared v).flatMap fun e => within e.1.display s (check s e.2)
  | .items s, .list vs => (vs.zipIdx).flatMap fun e => within (Decimal.text e.2) s (check s e.1)
  | .itemList ss, .list vs => checkItems 0 ss vs
  | k, v => k.checkPlain v
termination_by structural k => k

def checkProperties : List (String × Schema) → Fields Value → List Violation
  | [], _ => []
  | (name, s) :: rest, fs =>
    (match fs.get? name with
      | some v => within name s (check s v)
      | none => []) ++ checkProperties rest fs
termination_by structural ps => ps

def checkItems (start : Nat) : List Schema → List Value → List Violation
  | s :: ss, v :: vs => within (Decimal.text start) s (check s v) ++ checkItems (start + 1) ss vs
  | _, _ => []
termination_by structural ss => ss

end

end ShapeContract.Wire
