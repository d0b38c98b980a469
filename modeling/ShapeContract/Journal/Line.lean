import ShapeContract.Journal
import ShapeContract.Journal.Template
import ShapeContract.Value.JsonText

/-!
# Journal lines

A record is written as one line of JSON: level, logger, message, the known extra fields that are set
and the text of an exception. The moment of writing, which comes first, is not part of it here.
-/

set_option autoImplicit false

namespace ShapeContract

/-- The extra fields that a line can have, in their order. -/
def extraFields : List String :=
  ["schema", "override_key", "cache", "error_code", "path", "field_count", "hook"]

/-- A record as any part of a program may write it. -/
structure LogEntry where
  level : Int
  logger : String
  template : String
  arguments : List Value
  extras : Fields Value
  /-- The text of the exception that is told of. -/
  exception : Option String

namespace LogEntry

/-- The name of a level; one between the known ones is called by its number. -/
def levelName (n : Int) : String :=
  if n = 0 then "NOTSET"
  else
    match [Level.debug, .info, .warning, .error, .critical].find? fun l => (l.rank : Int) = n with
    | some l => l.text
    | none => "Level " ++ Decimal.signed n

def exceptionText (text : String) : String :=
  if text = "" then "ValueError" else "ValueError: " ++ text

/-- The members of the line in order. -/
def members (e : LogEntry) : Except Failure (Fields Value) := do
  let message ← Template.apply e.template e.arguments
  let extras := extraFields.filterMap fun name =>
    ((e.extras.get? name).bind Value.present?).map fun v => (name, v)
  let exception := match e.exception with
    | some text => [("exception", Value.str (exceptionText text))]
    | none => []
  pure ([("level", .str (levelName e.level)), ("logger", .str e.logger), ("message", .str message)] ++
    extras ++ exception)

/-- The line. -/
def line (e : LogEntry) : Except Failure String := do
  return (Value.object (← e.members)).json .line

end LogEntry

end ShapeContract
