import ShapeContract.Failure
import ShapeContract.Text.Split
import ShapeContract.Text.WholeNumber
import ShapeContract.Value.Basic

/-!
# Settings

Three settings, each given directly, by an environment variable or by its default, in this order.
Names of environment variables match without regard to case. The bound on nesting is a whole number
of at least one and may be written as a text.
-/

set_option autoImplicit false

namespace ShapeContract

structure Settings where
  maxSchemaDepth : Int := 32
  logLevel : String := "INFO"
  logFormat : String := "json"
deriving DecidableEq, Repr

namespace Settings

/-- The kinds of mistake in the value of a setting. -/
inductive Mistake where
  | intParsing | intParsingSize | intFromFloat | finiteNumber | intType | stringType | valueError
deriving DecidableEq, Repr

def Mistake.text : Mistake → String
  | .intParsing => "int_parsing"
  | .intParsingSize => "int_parsing_size"
  | .intFromFloat => "int_from_float"
  | .finiteNumber => "finite_number"
  | .intType => "int_type"
  | .stringType => "string_type"
  | .valueError => "value_error"

/-- The integer that a sign and ASCII digits denote. -/
def plainWhole? (cs : List Char) : Option Int :=
  let (negative, ds) := Text.splitSign cs
  if !ds.isEmpty && ds.all Decimal.isDigit then
    some (if negative then -(Decimal.value ds : Int) else (Decimal.value ds : Int))
  else none

/-- A number without zeros in front, save one before a point or the end. It starts with a digit or a
minus sign. -/
def withoutLeadingZeros? (cs : List Char) : Option (List Char) :=
  let isZero (c : Char) : Bool := c = '0' || c = '_'
  match cs with
  | [] => none
  | '0' :: rest =>
    let kept := rest.dropWhile isZero
    let before := ('0' :: rest.takeWhile isZero).getLastD '0'
    match kept with
    | [] => some [before]
    | '.' :: _ => some (before :: kept)
    | c :: _ => if Decimal.isDigit c then some kept else none
  | c :: rest => if Decimal.isDigit c || c = '-' then some (c :: rest) else none

/-- A text without a point and the zeros after it. -/
def withoutZeroFraction (cs : List Char) : List Char :=
  match Text.cutFirst '.' cs with
  | (whole, some zeros) => if zeros.all (· = '0') then whole else cs
  | (_, none) => cs

/-- A text without its underscores, of which none stands at an end or beside another. -/
def withoutUnderscores? (cs : List Char) : Option (List Char) :=
  let parts := Text.pieces '_' cs
  if parts.length > 1 && parts.any List.isEmpty then none else some parts.flatten

/-- A whole number as a text may give it: plainly, or with zeros in front, underscores between its
digits and a fraction of zeros. -/
def readWhole (s : String) : Except Mistake Int :=
  let cs := Text.trimNumber s.toList
  if cs.length > Text.digitLimit then .error .intParsingSize
  else
    let loose := do plainWhole? (← withoutUnderscores? (withoutZeroFraction (← withoutLeadingZeros? cs)))
    match (plainWhole? cs).or loose with
    | some i => .ok i
    | none => .error .intParsing

def wholeOf (v : Value) : Except Mistake Int :=
  match v with
  | .int i => .ok i
  | .bool b => .ok (if b then 1 else 0)
  | .float x =>
    match x.truncated?, x.integral? with
    | some _, some i => .ok i
    | some _, none => .error .intFromFloat
    | none, _ => .error .finiteNumber
  | v =>
    match v.text? with
    | some s => readWhole s
    | none => .error .intType

def depthOf (v : Value) : Except Mistake Int := do
  let i ← wholeOf v
  if i < 1 then throw .valueError
  pure i

def textOf (v : Value) : Except Mistake String :=
  match v.text? with
  | some s => .ok s
  | none => .error .stringType

/-- The value given for a setting: directly, or by the last environment variable of its name. -/
def given? (init : Fields Value) (env : Fields String) (name : String) : Option Value :=
  match init.get? name with
  | some v => some v
  | none =>
    ((env.filter fun e => Text.lower e.1 = "dtoforge_" ++ name).getLast?).map fun e => .str e.2

/-- The setting of a name, or the mistake in its value. -/
def setting {α : Type} (init : Fields Value) (env : Fields String) (name : String) (default : α)
    (read : Value → Except Mistake α) : Except (String × String) α :=
  match given? init env name with
  | none => .ok default
  | some v => (read v).mapError fun m => (name, m.text)

def mistakes {α : Type} : Except (String × String) α → List (String × String)
  | .ok _ => []
  | .error m => [m]

/-- Reads the settings; every mistake is told. -/
def read (init : Fields Value) (env : Fields String) : Except Failure Settings :=
  match setting init env "max_schema_depth" 32 depthOf, setting init env "log_level" "INFO" textOf,
      setting init env "log_format" "json" textOf with
  | .ok depth, .ok level, .ok format => .ok ⟨depth, level, format⟩
  | d, l, f => .error (.invalidRecord (mistakes d ++ mistakes l ++ mistakes f))

end Settings

end ShapeContract
