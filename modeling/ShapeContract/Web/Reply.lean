import ShapeContract.Journal
import ShapeContract.Report

/-!
# Replies to failures

A failed request is answered with the envelope of its report and the status that this brings. Client
errors are written to the journal as warnings, all others as errors; of an unexpected failure the
client learns nothing.
-/

set_option autoImplicit false

namespace ShapeContract

structure Reply where
  status : Int
  body : Value
  records : List JournalRecord

/-- A failure of request handling: one with a report, or an unexpected one by its name. -/
inductive RequestFailure where
  | reported (r : Report)
  | unexpected (name : String)

/-- One fault that the framework found in a request: where, of which kind, in its words. -/
structure RequestFault where
  location : List Value
  kind : Value
  message : Value

namespace RequestFault

def isBody (v : Value) : Bool := v.text? = some "body"

/-- The dotted place of the fault; that it is in the body is not said. -/
def field (f : RequestFault) : String :=
  Text.join "." ((f.location.filter fun v => !isBody v).map Value.display)

def toFieldError (f : RequestFault) : Except Failure FieldError :=
  FieldError.ofFields [("field", .str f.field), ("error", f.kind), ("message", f.message)]

end RequestFault

namespace Misuse

/-- The name under which an unexpected misuse is written to the journal. -/
def name : Misuse → String
  | .type => "TypeError"
  | .attribute => "AttributeError"
  | .key => "KeyError"
  | .value => "ValueError"
  | .overflow => "OverflowError"
  | .pattern => "error"
  | .recursion => "RecursionError"

end Misuse

namespace RequestFailure

/-- What a failure of the library is to a request. -/
def ofFailure (e : Failure) : RequestFailure :=
  match Report.ofFailure? e, e with
  | some r, _ => .reported r
  | none, .misuse m => .unexpected m.name
  | none, .invalidRecord _ => .unexpected "ValidationError"
  | none, _ => .unexpected "ValueError"

end RequestFailure

namespace Reply

def failureRecord (level : Level) (message code url : String) : JournalRecord :=
  ⟨level, .errorHandlers, message, [("error_code", .str code), ("path", .str url)]⟩

/-- The reply to a failure with a report. -/
def ofReport (url : String) (r : Report) : Reply :=
  let level := if r.status < 500 then Level.warning else Level.error
  ⟨r.status, r.envelope, [failureRecord level (r.code ++ " on " ++ url ++ ": " ++ r.message) r.code url]⟩

/-- The reply to a failure that nobody foresaw. -/
def ofUnexpected (url name : String) : Reply :=
  let r := Report.unexpected
  ⟨r.status, r.envelope, [failureRecord .error ("Unhandled " ++ name ++ " on " ++ url) r.code url]⟩

def ofFailure (url : String) : RequestFailure → Reply
  | .reported r => ofReport url r
  | .unexpected name => ofUnexpected url name

/-- The reply to a request in which the framework found faults. -/
def ofFaults (url : String) (faults : List RequestFault) : Except Failure Reply := do
  let details ← faults.mapM RequestFault.toFieldError
  pure (ofReport url (Report.payload details { path := .str url }))

end Reply

end ShapeContract
