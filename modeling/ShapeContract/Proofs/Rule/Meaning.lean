import ShapeContract.Proofs.Pattern.ObjectId
import ShapeContract.Value.Entries
import ShapeContract.Wire.Equality
import ShapeContract.Wire.Moment

/-!
# What a rule tree asks of a value

`Rule.complaints` reads a rule directly, without a wire document: which of its facets a value
breaks, at which place and in which order. A facet speaks only of the values it is about, a bound on
the length of texts not of numbers.
-/

set_option autoImplicit false

namespace ShapeContract

/-- A facet that a value breaks, with the names and indexes that lead to the value. -/
structure Complaint where
  path : List String
  keyword : String
deriving DecidableEq, Repr

namespace Complaint

def under (step : String) (c : Complaint) : Complaint := { c with path := step :: c.path }

/-- The dotted path, empty at the root. -/
def field (c : Complaint) : String := Text.join "." c.path

end Complaint

namespace Rule

/-- The complaint about a facet of the value itself, unless the facet is kept. -/
def insist (kept : Bool) (keyword : String) : List Complaint := if kept then [] else [⟨[], keyword⟩]

/-- Whether a number is not below a bound; what is no number bounds nothing. -/
def reaches (bound : Option Value) (x : Number) : Bool :=
  (bound.bind Value.number?).all fun b => !x.lt b

/-- Whether a number is not above a bound. -/
def staysWithin (bound : Option Value) (x : Number) : Bool :=
  (bound.bind Value.number?).all fun b => !b.lt x

/-- Whether the pattern is found in a text; an empty one asks nothing. -/
def fits [CharacterNames] (pattern : Option Value) (s : String) : Bool :=
  ((pattern.filter Value.truthy).bind Value.text?).all fun source =>
    match Pattern.compile {} source with
    | .ok p => Pattern.found p.node s
    | .error _ => true

/-- Whether a value is among the allowed ones; an empty list of them asks nothing. -/
def allows (enum : Option (List Value)) (v : Value) : Bool :=
  (enum.filter fun ws => !ws.isEmpty).all fun ws => ws.any fun w => Wire.same w v

def textComplaints [CharacterNames] (f : Facets) (v : Value) : List Complaint :=
  insist v.isText "type" ++
    (match v.text? with
      | some s =>
        insist (reaches f.minLength (.int s.length)) "minLength" ++
          insist (staysWithin f.maxLength (.int s.length)) "maxLength" ++
          insist (fits f.pattern s) "pattern"
      | none => []) ++
    insist (allows f.enum v) "enum"

def rangeComplaints (f : Facets) (x : Number) : List Complaint :=
  insist (reaches f.min x) "minimum" ++ insist (staysWithin f.max x) "maximum"

/-- A truth value is no number. -/
def numberComplaints (f : Facets) (v : Value) : List Complaint :=
  match v with
  | .int i => rangeComplaints f (.int i)
  | .float x => rangeComplaints f (.double x)
  | _ => insist false "type"

def booleanComplaints (v : Value) : List Complaint :=
  match v with
  | .bool _ => []
  | _ => insist false "type"

def momentComplaints (v : Value) : List Complaint :=
  match v.text? with
  | some s => insist (Wire.isMoment s) "format"
  | none => insist false "type"

def objectIdComplaints (v : Value) : List Complaint :=
  match v.text? with
  | some s => insist (Pattern.isObjectId s) "pattern"
  | none => insist false "type"

/-- The required children that a mapping lacks. -/
def absentComplaints (cs : Fields Rule) (fs : Fields Value) : List Complaint :=
  (cs.filter fun c => c.2.isRequired && !fs.contains c.1).map fun c => ⟨[c.1], "required"⟩

/-- Whether every key of a mapping is the name of a child. -/
def knowsKeys (cs : Fields Rule) (v : Value) : Bool :=
  (v.entries?.getD []).all fun e => e.1.text?.any fun name => cs.keys.contains name

def countComplaints (f : Facets) (n : Nat) : List Complaint :=
  insist (reaches f.minItems (.int n)) "minItems" ++ insist (staysWithin f.maxItems (.int n)) "maxItems"

mutual

/-- What a value breaks of a rule: below an object its children in order, then what is missing, then
what is unknown. -/
def complaints [CharacterNames] (allowUnknown : Bool) : Rule → Value → List Complaint
  | ⟨f, items, children⟩, v =>
    match f.type with
    | .object =>
      match v.members? with
      | some fs =>
        presentComplaints allowUnknown children fs ++ absentComplaints (children.getD []) fs ++
          insist (allowUnknown || knowsKeys (children.getD []) v) "additionalProperties"
      | none => insist false "type"
    | .array =>
      match v with
      | .list vs => itemComplaints allowUnknown items vs ++ countComplaints f vs.length
      | _ => insist false "type"
    | .string => textComplaints f v
    | .number => numberComplaints f v
    | .boolean => booleanComplaints v
    | .date => momentComplaints v
    | .objectId => objectIdComplaints v
    | .mixed => []
    | .buffer => []
termination_by structural r => r

def itemComplaints [CharacterNames] (allowUnknown : Bool) :
    Option Rule → List Value → List Complaint
  | none, _ => []
  | some r, vs => vs.zipIdx.flatMap fun e =>
      (complaints allowUnknown r e.1).map (Complaint.under (Decimal.text e.2))
termination_by structural items => items

def presentComplaints [CharacterNames] (allowUnknown : Bool) :
    Option (List (String × Rule)) → Fields Value → List Complaint
  | none, _ => []
  | some cs, fs => memberComplaints allowUnknown cs fs
termination_by structural children => children

/-- The complaints about the children that are present, in the order of their declaration. -/
def memberComplaints [CharacterNames] (allowUnknown : Bool) :
    List (String × Rule) → Fields Value → List Complaint
  | [], _ => []
  | (name, c) :: rest, fs =>
    (match fs.get? name with
      | some v => (complaints allowUnknown c v).map (Complaint.under name)
      | none => []) ++ memberComplaints allowUnknown rest fs
termination_by structural cs => cs

end

/-- What a document breaks of a tree; the root is an object, whatever facets it has. -/
def documentComplaints [CharacterNames] (allowUnknown : Bool) (tree : Rule) (v : Value) :
    List Complaint :=
  complaints allowUnknown ⟨empty.facets, none, some tree.kids⟩ v

end Rule

end ShapeContract
