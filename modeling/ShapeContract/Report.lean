import ShapeContract.Failure
import ShapeContract.Rule.Record
import ShapeContract.Text.Split
import ShapeContract.Value.Display

/-!
# Error reports

A report is what a client is told of a failure: a code, a category, a severity and an HTTP status,
with the place of the failure. Each kind of report brings its own, of which single ones can be
replaced. `Report.envelope` is the body of the answer.
-/

set_option autoImplicit false

namespace ShapeContract

inductive ErrorSeverity where
  | info | warning | error | critical
deriving DecidableEq, Repr

/-- Which side failed: the payload, the schema or the program. -/
inductive ErrorCategory where
  | validation | schema | internal
deriving DecidableEq, Repr

inductive ReportKind where
  | general | introspection | depthExceeded | wireSchema | payload
deriving DecidableEq, Repr

/-- One normalized failure of a payload; the field is a dotted path, empty at the root. -/
structure FieldError where
  field : String
  error : String
  message : Option String
deriving DecidableEq, Repr

/-- Where an error happened; what is null is not set. -/
structure ErrorContext where
  schemaName : Value := .null
  path : Value := .null
  overrideKey : Value := .null
  debugInfo : Value := .null

structure Report where
  kind : ReportKind
  message : String
  context : ErrorContext
  code : String
  category : ErrorCategory
  severity : ErrorSeverity
  status : Int
  details : List FieldError

/-- What can be put in the place of what a kind of report brings. -/
structure ReportMetadata where
  code : Option String := none
  category : Option ErrorCategory := none
  severity : Option ErrorSeverity := none
  status : Option Int := none
deriving DecidableEq, Repr

namespace ErrorSeverity

def text : ErrorSeverity → String
  | .info => "info"
  | .warning => "warning"
  | .error => "error"
  | .critical => "critical"

def ofText? (s : String) : Option ErrorSeverity :=
  [info, warning, error, critical].find? fun x => x.text = s

end ErrorSeverity

namespace ErrorCategory

def text : ErrorCategory → String
  | .validation => "validation"
  | .schema => "schema"
  | .internal => "internal"

def ofText? (s : String) : Option ErrorCategory :=
  [validation, schema, internal].find? fun x => x.text = s

end ErrorCategory

namespace ReportKind

def name : ReportKind → String
  | .general => "DtoForgeError"
  | .introspection => "IntrospectionError"
  | .depthExceeded => "SchemaDepthExceededError"
  | .wireSchema => "WireSchemaError"
  | .payload => "PayloadValidationError"

def ofName? (s : String) : Option ReportKind :=
  [general, introspection, depthExceeded, wireSchema, payload].find? fun k => k.name = s

/-- The kinds that a report of a kind also is, itself first. -/
def lineage : ReportKind → List ReportKind
  | .general => [.general]
  | .introspection => [.introspection, .general]
  | .depthExceeded => [.depthExceeded, .introspection, .general]
  | .wireSchema => [.wireSchema, .general]
  | .payload => [.payload, .general]

def code : ReportKind → String
  | .general => "DTOFORGE_ERROR"
  | .introspection => "INTROSPECTION_ERROR"
  | .depthExceeded => "SCHEMA_DEPTH_EXCEEDED"
  | .wireSchema => "INVALID_WIRE_SCHEMA"
  | .payload => "VALIDATION_ERROR"

def category : ReportKind → ErrorCategory
  | .general => .internal
  | .payload => .validation
  | _ => .schema

def severity : ReportKind → ErrorSeverity
  | .general => .error
  | .payload => .error
  | _ => .critical

def status : ReportKind → Int
  | .payload => 400
  | _ => 500

end ReportKind

namespace Report

/-- A report with what its kind brings. -/
def ofKind (kind : ReportKind) (message : String) (context : ErrorContext) : Report :=
  ⟨kind, message, context, kind.code, kind.category, kind.severity, kind.status, []⟩

/-- A report with some of its metadata replaced. -/
def withMetadata (r : Report) (m : ReportMetadata) : Report :=
  { r with
    code := m.code.getD r.code
    category := m.category.getD r.category
    severity := m.severity.getD r.severity
    status := m.status.getD r.status }

def depthExceeded (bound : Int) (path : String) (context : ErrorContext) : Report :=
  ofKind .depthExceeded
    ("Schema nesting exceeds max depth " ++ Decimal.signed bound ++ " at '" ++ path ++ "'")
    { context with path := .str path }

def wireRejected (reason : String) (context : ErrorContext) : Report :=
  ofKind .wireSchema ("Invalid wire schema: " ++ reason) context

def payload (details : List FieldError) (context : ErrorContext) : Report :=
  { ofKind .payload "Invalid request data" context with details := details }

/-- The report of an unexpected failure, which tells nothing of it. -/
def unexpected : Report :=
  { ofKind .general "An unexpected error occurred" {} with
    code := "INTERNAL_ERROR", severity := .critical }

/-- The report that a failure is, for the failures that are reports. -/
def ofFailure? : Failure → Option Report
  | .notIntrospectable name =>
    some (ofKind .introspection "Schema must expose each_path(fn)" { schemaName := .str name })
  | .notTabular name =>
    some (ofKind .introspection (name ++ " is not a SQLAlchemy model or Table")
      { schemaName := .str name })
  | .tooDeep bound path => some (depthExceeded bound path {})
  | .wireRejected reason path =>
    some (wireRejected reason { path := (path.map Value.str).getD .null })
  | _ => none

def detailValue (e : FieldError) : Value :=
  .object [("field", .str e.field), ("message", (e.message.map Value.str).getD .null),
    ("type", .str e.error)]

/-- The body of an answer that carries the report. -/
def envelope (r : Report) : Value :=
  let context := Rule.entry "schema_name" r.context.schemaName.present? ++
    Rule.entry "path" r.context.path.present?
  let base : Fields Value :=
    [("code", .str r.code), ("message", .str r.message), ("category", .str r.category.text),
      ("severity", .str r.severity.text), ("context", .object context)]
  let details : Fields Value :=
    if r.kind = .payload then [("details", .list (r.details.map detailValue))] else []
  .object [("error", .object (base ++ details))]

end Report

namespace Failure

/-- The wording of a failure, for those that have one. -/
def message? (e : Failure) : Option String :=
  match e with
  | .unknownType shown => some (shown ++ " is not a valid PrimitiveType")
  | .unknownOption shown => some ("Unsupported regex option: " ++ shown)
  | e => (Report.ofFailure? e).map Report.message

end Failure

namespace FieldError

def textField (fs : Fields Value) (name : String) : Except (String × String) String :=
  match fs.get? name with
  | none => .error (name, "missing")
  | some v =>
    match v.text? with
    | some s => .ok s
    | none => .error (name, "string_type")

def optionalText (fs : Fields Value) (name : String) : Except (String × String) (Option String) :=
  match (fs.get? name).bind Value.present? with
  | none => .ok none
  | some v =>
    match v.text? with
    | some s => .ok (some s)
    | none => .error (name, "string_type")

/-- Reads a field error from its fields; every wrong field is told. -/
def ofFields (fs : Fields Value) : Except Failure FieldError :=
  match textField fs "field", textField fs "error", optionalText fs "message" with
  | .ok f, .ok e, .ok m => .ok ⟨f, e, m⟩
  | f, e, m =>
    let faults {α : Type} : Except (String × String) α → List (String × String)
      | .ok _ => []
      | .error d => [d]
    .error (.invalidRecord (faults f ++ faults e ++ faults m))

end FieldError

end ShapeContract
