import ShapeContract.Journal
import ShapeContract.Settings
import ShapeContract.Text.Classes

/-!
# Set-up of the journal

The journal writes to a list of handlers, of which one is the library's own and is replaced by every
set-up. The handlers of the host stay. Records below the level are not written.
-/

set_option autoImplicit false

namespace ShapeContract

/-- How a handler lays out a record. -/
inductive Layout where
  | json
  /-- By a template of its parts. -/
  | lines (template : String)
deriving DecidableEq, Repr

/-- A place to which records are written. What else belongs to a handler goes with its number. -/
structure Handler where
  number : Nat
  name : Option String
  layout : Layout
deriving DecidableEq, Repr

/-- The handlers of a journal in order and its level, which may not be set. -/
structure JournalSetup where
  handlers : List Handler := []
  level : Option Level := none
  /-- The number of the next handler that is made. -/
  next : Nat := 0
deriving DecidableEq, Repr

/-- What a set-up is asked for: a level by its name, and a format. -/
structure SetupRequest where
  level : Value := .str "INFO"
  format : Value := .str "json"

namespace JournalSetup

/-- The name of the library's own handler. -/
def ownName : String := "dtoforge"

def isOwn (h : Handler) : Bool := h.name = some ownName

/-- The levels by their names. -/
def levelNames : Fields (Option Level) :=
  [("NOTSET", none), ("DEBUG", some .debug), ("INFO", some .info), ("WARN", some .warning),
    ("WARNING", some .warning), ("ERROR", some .error), ("FATAL", some .critical),
    ("CRITICAL", some .critical)]

/-- Names that are known but are no levels, with what happens when one is taken for a level. -/
def misnomers : Fields Failure :=
  [("BASIC_FORMAT", .valueMisuse), ("_STYLES", .typeMisuse)]

/-- The level of a name, whatever its case; an unknown name means the level of information. -/
def levelOf (name : String) : Except Failure (Option Level) :=
  match misnomers.get? (Text.upper name) with
  | some e => .error e
  | none => .ok ((levelNames.get? (Text.upper name)).getD (some .info))

/-- The template of lines that are no JSON. -/
def lineTemplate : String := "%(asctime)s %(levelname)s %(name)s - %(message)s"

end JournalSetup

namespace SetupRequest

/-- Every format but JSON means lines for a reader. -/
def layout (r : SetupRequest) : Layout :=
  if r.format.text? = some "json" then .json else .lines JournalSetup.lineTemplate

def levelAsked (r : SetupRequest) : Except Failure (Option Level) :=
  match r.level.text? with
  | some name => JournalSetup.levelOf name
  | none => .error .attributeMisuse

end SetupRequest

namespace JournalSetup

/-- Takes a handler out where it first stands. -/
def remove (s : JournalSetup) (h : Handler) : JournalSetup :=
  { s with handlers := s.handlers.erase h }

/-- Puts a handler last, unless the journal has it. -/
def add (s : JournalSetup) (h : Handler) : JournalSetup :=
  if h ∈ s.handlers then s else { s with handlers := s.handlers ++ [h] }

/-- Takes out those of the given handlers that are the library's own, one by one. -/
def removeOwn (s : JournalSetup) : List Handler → JournalSetup
  | [] => s
  | h :: rest => removeOwn (if isOwn h then s.remove h else s) rest

/-- The handler that the next set-up makes. -/
def nextOwn (s : JournalSetup) (layout : Layout) : Handler := ⟨s.next, some ownName, layout⟩

/-- The set-up with a new handler in place of the library's own ones. The list that is gone through
is the one from before the first of them is taken out. -/
def install (s : JournalSetup) (layout : Layout) : JournalSetup :=
  { (s.removeOwn s.handlers).add (s.nextOwn layout) with next := s.next + 1 }

/-- Sets the journal up and answers with the new handler, which is in place even if the level is
refused. -/
def configure (s : JournalSetup) (r : SetupRequest) : JournalSetup × Except Failure Handler :=
  match r.levelAsked with
  | .ok l => ({ s.install r.layout with level := l }, .ok (s.nextOwn r.layout))
  | .error e => (s.install r.layout, .error e)

/-- Sets the journal up with a level and a format that may be left out. -/
def configureWith (s : JournalSetup) (arguments : List Value) :
    JournalSetup × Except Failure Handler :=
  match arguments with
  | [] => s.configure {}
  | [level] => s.configure { level }
  | [level, format] => s.configure { level, format }
  | _ => (s, .error .typeMisuse)

def levelName (s : JournalSetup) : String := (s.level.map Level.text).getD "NOTSET"

/-- The handlers that carry the library's name. -/
def own (s : JournalSetup) : List Handler := s.handlers.filter isOwn

def ownHandlers (s : JournalSetup) : Nat := s.own.length

/-- Whether a handler is the only one of the library. -/
def isInstalled (s : JournalSetup) (h : Handler) : Bool := s.own = [h]

/-- Whether records are written as lines of JSON. -/
def writesJson (s : JournalSetup) : Bool := s.own.getLast?.any fun h => h.layout = .json

/-- Whether a record is written; without a level of its own the journal takes that of warnings. -/
def admits (s : JournalSetup) (r : JournalRecord) : Bool :=
  (s.level.getD .warning).rank ≤ r.level.rank

end JournalSetup

/-- The records of a program that starts and stops. -/
def lifespanRecords (title : String) : List JournalRecord :=
  [⟨.info, .application, title ++ " started", []⟩,
    ⟨.info, .application, title ++ " shutting down", []⟩]

/-- The set-up that settings ask for. -/
def Settings.journal (s : Settings) : JournalSetup × Except Failure Unit :=
  let (setup, outcome) := JournalSetup.configure {} ⟨.str s.logLevel, .str s.logFormat⟩
  (setup, outcome.map fun _ => ())

end ShapeContract
