import ShapeContract.Value.Display

/-!
# Values as JSON text

A layout fixes the separators, whether members are sorted by name and whether text outside ASCII is
escaped. What JSON cannot express is written as the string of its plain text.
-/

set_option autoImplicit false

namespace ShapeContract

structure JsonLayout where
  itemSeparator : String
  nameSeparator : String
  sorted : Bool
  ascii : Bool

namespace JsonLayout

/-- No blanks, members sorted, ASCII only. -/
def canonical : JsonLayout := ⟨",", ":", true, true⟩

/-- Blanks after separators, members in their own order, any characters. -/
def line : JsonLayout := ⟨", ", ": ", false, false⟩

end JsonLayout

/-- Places an entry before the first one with a greater name. -/
def Fields.insertSorted {α : Type} (e : String × α) : Fields α → Fields α
  | [] => [e]
  | f :: rest => if e.1 < f.1 then e :: f :: rest else f :: Fields.insertSorted e rest

def Fields.sorted {α : Type} (fs : Fields α) : Fields α :=
  fs.foldr (fun e acc => Fields.insertSorted e acc) []

namespace Value

def jsonDouble (x : Double) : String :=
  match x with
  | .nan => "NaN"
  | .infinite negative => if negative then "-Infinity" else "Infinity"
  | x => x.text

/-- The text of a key: JSON writes constants and numbers used as names in its own words. -/
def jsonKey : Value → String
  | .null => "null"
  | .bool b => if b then "true" else "false"
  | .float x => jsonDouble x
  | v => v.text?.getD v.display

mutual

def json (layout : JsonLayout) : Value → String
  | .null => "null"
  | .bool b => if b then "true" else "false"
  | .int i => Decimal.signed i
  | .float x => jsonDouble x
  | .list vs => "[" ++ Text.join layout.itemSeparator (jsonAll layout vs) ++ "]"
  | .tuple vs => "[" ++ Text.join layout.itemSeparator (jsonAll layout vs) ++ "]"
  | .object fs => jsonMembers layout (jsonFields layout fs)
  | .mapping ks vs => jsonMembers layout ((ks.map jsonKey).zip (jsonAll layout vs))
  | v => Text.jsonQuoted layout.ascii (v.text?.getD v.display)

def jsonAll (layout : JsonLayout) : List Value → List String
  | [] => []
  | v :: vs => json layout v :: jsonAll layout vs

def jsonFields (layout : JsonLayout) : List (String × Value) → Fields String
  | [] => []
  | (k, v) :: rest => (k, json layout v) :: jsonFields layout rest

def jsonMembers (layout : JsonLayout) (members : Fields String) : String :=
  let members := if layout.sorted then members.sorted else members
  inBraces (Text.join layout.itemSeparator
    (members.map fun e => Text.jsonQuoted layout.ascii e.1 ++ layout.nameSeparator ++ e.2))

end

end Value

end ShapeContract
