import ShapeContract.Double.Shortest
import ShapeContract.Text.Quoted
import ShapeContract.Text.Split
import ShapeContract.Value.Basic

/-!
# Values as text

`shown` is the form that messages quote: texts in quotes, sequences in brackets, mappings in braces.
`display` is the plain form, in which a text stands for itself.
-/

set_option autoImplicit false

namespace ShapeContract

/-- An opening and a closing brace around a text. -/
def inBraces (s : String) : String := "\x7b" ++ s ++ "\x7d"

namespace RegexFlags

def names (f : RegexFlags) : List String :=
  (if f.ignoreCase then ["re.IGNORECASE"] else []) ++ (if f.multiLine then ["re.MULTILINE"] else []) ++
    (if f.dotAll then ["re.DOTALL"] else []) ++ (if f.verbose then ["re.VERBOSE"] else [])

end RegexFlags

namespace DateTime

def shownOffset (o : Int) : String :=
  if o = 0 then "datetime.timezone.utc"
  else
    let days := Int.fdiv o Calendar.dayMicros
    let rest := Int.fmod o Calendar.dayMicros
    let seconds := rest / 1000000
    let micros := rest % 1000000
    let parts := (if days = 0 then [] else ["days=" ++ Decimal.signed days]) ++
      (if seconds = 0 then [] else ["seconds=" ++ Decimal.signed seconds]) ++
      (if micros = 0 then [] else ["microseconds=" ++ Decimal.signed micros])
    "datetime.timezone(datetime.timedelta(" ++ Text.join ", " parts ++ "))"

def shown (t : DateTime) : String :=
  let base := [t.date.year, t.date.month, t.date.day, t.hour, t.minute] ++
    (if t.microsecond ≠ 0 then [t.second, t.microsecond]
      else if t.second ≠ 0 then [t.second] else [])
  let zone := match t.offset with
    | some o => ["tzinfo=" ++ shownOffset o]
    | none => []
  "datetime.datetime(" ++ Text.join ", " (base.map Decimal.text ++ zone) ++ ")"

end DateTime

namespace Value

/-- The facets of a rule in the order in which its text lists them: key, name, text when unset. -/
def ruleLayout : List (String × String × String) :=
  [("type", "type", "None"), ("required", "required", "None"), ("minLength", "min_length", "None"),
    ("maxLength", "max_length", "None"), ("pattern", "pattern", "None"), ("enum", "enum", "None"),
    ("min", "min", "None"), ("max", "max", "None"), ("items", "items", "None"),
    ("minItems", "min_items", "None"), ("maxItems", "max_items", "None"),
    ("children", "children", "None"), ("default", "default", "NO_DEFAULT")]

def shownRegex (source : String) (flags : RegexFlags) : String :=
  let body := String.ofList ((Text.quoted source).toList.take 200)
  let names := flags.names
  "re.compile(" ++ body ++ (if names.isEmpty then "" else ", " ++ Text.join "|" names) ++ ")"

mutual

def shown : Value → String
  | .null => "None"
  | .bool b => if b then "True" else "False"
  | .int i => Decimal.signed i
  | .float x => x.text
  | .str s => Text.quoted s
  | .list vs => "[" ++ Text.join ", " (shownAll vs) ++ "]"
  | .object fs => inBraces (Text.join ", " ((shownFields fs).map fun e => Text.quoted e.1 ++ ": " ++ e.2))
  | .mapping ks vs =>
    inBraces (Text.join ", " (((shownAll ks).zip (shownAll vs)).map fun e => e.1 ++ ": " ++ e.2))
  | .tuple [v] => "(" ++ shown v ++ ",)"
  | .tuple vs => "(" ++ Text.join ", " (shownAll vs) ++ ")"
  | .set [] => "set()"
  | .set vs => inBraces (Text.join ", " (shownAll vs))
  | .regex s f => shownRegex s f
  | .native t => t.shown
  | .enumeration n _ _ => "<enum " ++ Text.quoted n ++ ">"
  | .member o l v _ => "<" ++ o ++ "." ++ l ++ ": " ++ shown v ++ ">"
  | .datetime t => t.shown
  | .date d =>
    "datetime.date(" ++ Text.join ", " ([d.year, d.month, d.day].map Decimal.text) ++ ")"
  | .callable => "<callable>"
  | .rule fs =>
    let texts := shownFields fs
    "Rule(" ++ Text.join ", " (ruleLayout.map fun e =>
      e.2.1 ++ "=" ++ (Fields.get? texts e.1).getD e.2.2) ++ ")"
  | .source r => r.shown

def shownAll : List Value → List String
  | [] => []
  | v :: vs => shown v :: shownAll vs

def shownFields : List (String × Value) → List (String × String)
  | [] => []
  | (k, v) :: rest => (k, shown v) :: shownFields rest

end

def display : Value → String
  | .str s => s
  | .member o l _ _ => o ++ "." ++ l
  | .datetime t => t.iso ' '
  | .date d => d.iso
  | v => v.shown

/-- The items that a walk over a value meets: letters, items, keys or members. -/
def items? : Value → Option (List Value)
  | .str s => some (s.toList.map fun c => .str (String.singleton c))
  | .member _ _ (.str s) true => some (s.toList.map fun c => .str (String.singleton c))
  | .list vs => some vs
  | .tuple vs => some vs
  | .set vs => some vs
  | .object fs => some (fs.map fun e => .str e.1)
  | .mapping ks _ => some ks
  | .enumeration n ms textual => some (ms.map fun e => .member n e.1 e.2 textual)
  | _ => none

end Value

end ShapeContract
