import ShapeContract.Journal
import ShapeContract.Report
import ShapeContract.Wire.Metaschema
import ShapeContract.Wire.Preparation

/-!
# Validators

A validator is a schema with the handling of payloads: it prepares a payload, checks what came of it
and writes a message for each violation. A document that breaks the rules of the schema language has
no validator.
-/

set_option autoImplicit false

namespace ShapeContract.Wire

structure Validator where
  schema : Schema
  handling : Handling

/-- The answer to a payload: its prepared form, or what is wrong with that. -/
inductive Verdict where
  | accepted (data : Value)
  | rejected (errors : List FieldError)

namespace Verdict

def ok : Verdict → Bool
  | .accepted _ => true
  | .rejected _ => false

def data : Verdict → Value
  | .accepted v => v
  | .rejected _ => .null

def errors : Verdict → List FieldError
  | .accepted _ => []
  | .rejected es => es

end Verdict

/-- The record of a document that was refused. -/
def refusal (path : List String) (reason : String) : JournalRecord :=
  ⟨.warning, .engine, "Wire schema rejected: " ++ reason,
    [("error_code", .str ReportKind.wireSchema.code), ("path", .str (Text.join "." path))]⟩

/-- The validator of a document; the first thing wrong with it is told. -/
def compile [CharacterNames] (h : Handling) (document : Value) : Traced Validator :=
  match Metaschema.findings document with
  | [] => pure ⟨Schema.ofDocument document, h⟩
  | .abort e :: _ => .fail e
  | .breach path reason :: _ => do
    .note (refusal path reason)
    let joined := Text.join "/" path
    .fail (.wireRejected reason (if joined = "" then none else some joined))

def Violation.toFieldError (e : Violation) : FieldError := ⟨e.field, e.keyword, some e.message⟩

/-- The verdict on a prepared payload with its violations. -/
def Verdict.of (prepared : Value) (errors : List Violation) : Verdict :=
  if errors.isEmpty then .accepted prepared else .rejected (errors.map Violation.toFieldError)

namespace Validator

/-- A payload prepared, and the violations of what came of it. -/
def examine (c : Validator) (payload : Value) : Except Failure (Value × List Violation) := do
  let prepared ← prepare c.handling c.schema payload
  pure (prepared, check c.schema prepared)

/-- The verdict on a payload, before its messages are written. -/
def judge (c : Validator) (payload : Value) : Except Failure Verdict := do
  let (prepared, errors) ← c.examine payload
  pure (Verdict.of prepared errors)

/-- What is found about a payload, with every message written; one that cannot be ends the run. -/
def report (c : Validator) (payload : Value) : Except Failure (Value × List Violation) := do
  let (prepared, errors) ← c.examine payload
  if errors.all Violation.writable then pure (prepared, errors) else throw .valueMisuse

/-- The answer to a payload. -/
def validate (c : Validator) (payload : Value) : Except Failure Verdict := do
  let (prepared, errors) ← c.report payload
  pure (Verdict.of prepared errors)

/-- The answer to a payload on a stack. -/
def validateWithin (st : Stack) (c : Validator) (payload : Value) : Except Failure Verdict := do
  let prepared ← prepareWithin st c.handling c.schema 0 payload
  if st.checks c.schema prepared then
    let errors := check c.schema prepared
    if errors.all Violation.writable then pure (Verdict.of prepared errors) else throw .valueMisuse
  else throw .recursionMisuse

end Validator

end ShapeContract.Wire
