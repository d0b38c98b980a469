import ShapeContract.Sorting
import ShapeContract.Text.Split
import ShapeContract.Value.Entries
import ShapeContract.Value.Order
import ShapeContract.Value.Writable

/-!
# Sort orders

A sort order lists fields with directions, the first field first. Missing and null values are equal
and come after all others in ascending order; values that do not compare are ordered by their texts,
and an integer with too many digits has none. An order can be written as a text, `name:desc,age`.
-/

set_option autoImplicit false

namespace ShapeContract

/-- Fields with their directions: one is ascending, anything else descending. -/
abbrev SortOrder := Entries

namespace SortOrder

/-- The order of two values by their texts. -/
def compareTexts (a b : Value) : Except Failure Ordering :=
  if a.displayable && b.displayable then .ok (compare a.display b.display) else .error .valueMisuse

/-- The order of two values that are there. -/
def comparePresent (a b : Value) : Except Failure Ordering :=
  match Value.lt? b a, Value.lt? a b with
  | .ok greater, .ok less =>
    .ok (if greater && !less then .gt else if less && !greater then .lt else .eq)
  | _, _ => compareTexts a b

/-- The ascending order of two values of a field. -/
def compareValues (a b : Option Value) : Except Failure Ordering :=
  match a.bind Value.present?, b.bind Value.present? with
  | none, none => .ok .eq
  | none, some _ => .ok .gt
  | some _, none => .ok .lt
  | some a, some b => comparePresent a b

def isAscending (direction : Value) : Bool := direction.equal (.int 1)

/-- The order of two items: the first field in which they differ decides. -/
def compareItems : SortOrder → Value → Value → Except Failure Ordering
  | [], _, _ => .ok .eq
  | (field, direction) :: rest, a, b => do
    let x := (← a.entries).get? field
    let y := (← b.entries).get? field
    match ← compareValues x y with
    | .eq => compareItems rest a b
    | o => pure (if isAscending direction then o else o.swap)

/-- The order that a value gives, which is asked for only when items are compared. -/
def before (order : Value) (a b : Value) : Except Failure Bool := do
  return (← compareItems (← order.entries) a b) == .lt

/-- The items sorted; equal ones keep their order. -/
def apply (order items : Value) : Except Failure (List Value) := do
  let vs ← items.items
  if order.truthy then Sorting.sort (before order) vs else pure vs

/-- Newest first. -/
def newest : SortOrder := [(.str "_id", .int (-1))]

/-- One field with its direction, unless the text is blank. -/
def readToken (token : List Char) : Option (Value × Value) :=
  match Text.trim token with
  | [] => none
  | cs =>
    let (field, direction) := Text.cutFirst ':' cs
    let descending := Text.lower (String.ofList (direction.getD [])) = "desc"
    some (.str (String.ofList field), .int (if descending then -1 else 1))

/-- The order that a text lists; the last of two directions of one field counts. -/
def ofText (s : String) : SortOrder :=
  Entries.ofList ((Text.pieces ',' s.toList).filterMap readToken)

/-- The order that a value stands for: a mapping its own, anything else that of its text. -/
def ofValue (v : Value) : SortOrder :=
  if v.truthy then
    match v.entries? with
    | some es => es
    | none => ofText v.display
  else newest

end SortOrder

end ShapeContract
