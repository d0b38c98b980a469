import ShapeContract.Text.Encoding
import ShapeContract.Value.JsonReader
import ShapeContract.Web.Reply
import ShapeContract.Wire.Validator

/-!
# Validated bodies

The bytes of a request body are decoded, read as JSON and validated. Whatever is wrong
with them is one kind of client error. An answer is written as JSON only if its numbers are finite.
-/

set_option autoImplicit false

namespace ShapeContract.Body

/-- A request whose body is not the text of a JSON value. -/
def unreadable (url message : String) : RequestFailure :=
  .reported (Report.payload [⟨"", "json", some message⟩] { path := .str url })

/-- How deep lists and mappings may nest in a body. -/
def maxNesting : Nat := 950

/-- The value that the bytes of a body denote. -/
def read (url : String) (bytes : List Nat) : Except RequestFailure Value :=
  match Text.decode bytes with
  | .error reason => .error (unreadable url ("Body is not valid UTF-8: " ++ reason))
  | .ok cs =>
    match JsonReader.read maxNesting cs with
    | .ok v => .ok v
    | .error (.malformed reason) => .error (unreadable url ("Malformed JSON body: " ++ reason))
    | .error .tooManyDigits => .error (.unexpected Misuse.value.name)
    | .error .tooDeep => .error (.unexpected "RecursionError")

def rejectionRecord (url : String) (count : Nat) : JournalRecord :=
  ⟨.info, .body, "Payload rejected on " ++ url ++ " (" ++ Decimal.text count ++ " error(s))",
    [("path", .str url)]⟩

/-- The prepared payload of a request, and the records that were written. -/
def accept (validator : Wire.Validator) (url : String) (bytes : List Nat) :
    Except RequestFailure Value × List JournalRecord :=
  match read url bytes with
  | .error e => (.error e, [])
  | .ok payload =>
    match validator.validate payload with
    | .error e => (.error (RequestFailure.ofFailure e), [])
    | .ok (.accepted data) => (.ok data, [])
    | .ok (.rejected errors) =>
      (.error (.reported (Report.payload errors { path := .str url })),
        [rejectionRecord url errors.length])

mutual

/-- Whether every number in a value is finite. -/
def isFinite : Value → Bool
  | .float x => x.units?.isSome
  | .list vs => allFinite vs
  | .tuple vs => allFinite vs
  | .object fs => membersFinite fs
  | .mapping _ vs => allFinite vs
  | _ => true
termination_by structural v => v

def allFinite : List Value → Bool
  | [] => true
  | v :: rest => isFinite v && allFinite rest
termination_by structural vs => vs

def membersFinite : List (String × Value) → Bool
  | [] => true
  | (_, v) :: rest => isFinite v && membersFinite rest
termination_by structural fs => fs

end

/-- The reply that carries a value. -/
def replyWith (url : String) (v : Value) : Reply :=
  if isFinite v then ⟨200, v, []⟩ else Reply.ofUnexpected url Misuse.value.name

/-- The reply of a route that gives back the payload it received. -/
def echo (validator : Wire.Validator) (url : String) (bytes : List Nat) : Reply :=
  let (outcome, records) := accept validator url bytes
  let reply := match outcome with
    | .ok data => replyWith url (.object [("received", data)])
    | .error e => Reply.ofFailure url e
  { reply with records := records ++ reply.records }

/-- The reply of a small program with three routes: one that gives back what it received, one that
shows the wire document, and one that always breaks. -/
def route (validator : Wire.Validator) (document : Value) (url : String) (bytes : List Nat) : Reply :=
  if url = "/body" then echo validator url bytes
  else if url = "/schema" then replyWith url document
  else Reply.ofUnexpected url "RuntimeError"

end ShapeContract.Body
