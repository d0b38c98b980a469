import ShapeContract.Query.Filter

/-!
# Criteria

The criteria of a search as separate parts, and the filter document that they make. Where two parts
name one field the later part counts, but for presence and absence, which join the condition of the
field. Regular expressions are compiled here, so a bad one fails before any item is looked at.
-/

set_option autoImplicit false

namespace ShapeContract

/-- The parts of a search; what is null or counts as false asks for nothing. -/
structure Criteria where
  equals : Value := .null
  among : Value := .null
  range : Value := .null
  search : Value := .null
  present : Value := .null
  absent : Value := .null
  regex : Value := .null

namespace Criteria

/-- A key of a mapping has to be hashable. -/
def key (k : Value) : Except Failure Value :=
  if k.hashable then .ok k else .error .typeMisuse

/-- The entries of a part that is a mapping. -/
def partEntries (part : Value) : Except Failure Entries :=
  if part.truthy then part.entries else .ok []

/-- The items of a part that is a list. -/
def partItems (part : Value) : Except Failure (List Value) :=
  if part.truthy then part.items else .ok []

def operator (name : String) (v : Value) : Value := .object [(name, v)]

def addEquals (part : Value) (f : Entries) : Except Failure Entries := do
  if part.truthy then return f.putAll (← part.asEntries)
  else return f

def addAmong (part : Value) (f : Entries) : Except Failure Entries := do
  (← partEntries part).foldlM (fun f e => do
    let vs ← e.2.items
    pure (f.put e.1 (operator "$in" (.list vs)))) f

/-- The bound of a range under one of its names. -/
def bound (bounds : Entries) (name : String) : Fields Value :=
  match (bounds.get? (.str name)).bind Value.present? with
  | some v => [("$" ++ name, v)]
  | none => []

def addRange (part : Value) (f : Entries) : Except Failure Entries := do
  (← partEntries part).foldlM (fun f e => do
    let bounds ← e.2.entries
    pure (f.put e.1 (.object (bound bounds "gte" ++ bound bounds "lte")))) f

/-- A regular expression from its text, or a compiled one, which takes no further options. -/
def compiled [CharacterNames] (source : Value) (flags : RegexFlags) : Except Failure Value :=
  match source with
  | .regex s f => if flags = {} then .ok (.regex s f) else .error .valueMisuse
  | v =>
    match v.text? with
    | some s => do
      let p ← Pattern.compile flags s
      pure (.regex p.source p.flags)
    | none => .error .typeMisuse

/-- Whether letter case counts in a search. -/
def isExact : Option Value → Bool
  | some (.bool false) => true
  | _ => false

/-- A text is looked for in several fields, one of which must have it. -/
def addSearch [CharacterNames] (part : Value) (f : Entries) : Except Failure Entries := do
  if !part.truthy then return f
  let es ← part.entries
  let text := (es.get? (.str "q")).getD .null
  let fields := (es.get? (.str "fields")).getD .null
  if !text.truthy || !fields.truthy then return f
  let flags : RegexFlags := { ignoreCase := !isExact (es.get? (.str "case_insensitive")) }
  let pattern ← compiled text flags
  let branches ← (← fields.items).mapM fun field => do
    pure (Entries.toValue [(← key field, operator "$regex" pattern)])
  return f.put Filter.anyName (.list branches)

/-- Adds presence or absence to the condition of a field, which must be a mapping if it is there. -/
def notePresence (wanted : Bool) (f : Entries) (field : Value) : Except Failure Entries := do
  let field ← key field
  let known := (f.get? field).getD .null
  let cond ← match known.truthy, known.entries? with
    | true, some es => pure es
    | true, none => throw .typeMisuse
    | false, _ => pure []
  pure (f.put field (Entries.toValue (cond.put (.str "$exists") (.bool wanted))))

def addPresence (wanted : Bool) (part : Value) (f : Entries) : Except Failure Entries := do
  (← partItems part).foldlM (notePresence wanted) f

/-- The options that letters stand for. -/
def flagOf (letter : Value) : Except Failure RegexFlags :=
  match letter.text? with
  | some "i" => .ok { ignoreCase := true }
  | some "m" => .ok { multiLine := true }
  | some "s" => .ok { dotAll := true }
  | some "x" => .ok { verbose := true }
  | _ => .error (.unknownOption letter.shown)

def joinFlags (f g : RegexFlags) : RegexFlags :=
  ⟨f.ignoreCase || g.ignoreCase, f.multiLine || g.multiLine, f.dotAll || g.dotAll,
    f.verbose || g.verbose⟩

def flagsOf (options : Option Value) : Except Failure RegexFlags :=
  match options with
  | none => .ok {}
  | some v => do
    (← partItems v).foldlM (fun f letter => do return joinFlags f (← flagOf letter)) {}

def addRegex [CharacterNames] (part : Value) (f : Entries) : Except Failure Entries := do
  (← partEntries part).foldlM (fun f e => do
    match e.2.entries? with
    | none => throw .typeMisuse
    | some spec =>
      match spec.get? (.str "pattern") with
      | none => throw .keyMisuse
      | some source => do
        let flags ← flagsOf (spec.get? (.str "options"))
        pure (f.put e.1 (operator "$regex" (← compiled source flags)))) f

/-- The filter document of the criteria. -/
def filter [CharacterNames] (c : Criteria) : Except Failure Entries := do
  let f ← addEquals c.equals []
  let f ← addAmong c.among f
  let f ← addRange c.range f
  let f ← addSearch c.search f
  let f ← addPresence true c.present f
  let f ← addPresence false c.absent f
  addRegex c.regex f

end Criteria

end ShapeContract
