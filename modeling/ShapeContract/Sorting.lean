/-!
# Stable sorting by a comparison that may fail

The leading run, ascending or strictly descending, is taken first and a descending one reversed;
every later item is then placed by binary search after the items that are not greater. A list of at
most one item is never compared.
-/

set_option autoImplicit false

namespace ShapeContract.Sorting

variable {α ε : Type}

/-- Extends a run, held backwards, as long as the next item goes the same way. -/
def extendRun (before : α → α → Except ε Bool) (descending : Bool) (last : α) (run : List α) :
    List α → Except ε (List α × List α)
  | [] => .ok (run, [])
  | x :: rest => do
    if (← before x last) = descending then extendRun before descending x (x :: run) rest
    else pure (run, x :: rest)

/-- The leading run in ascending order, and the items after it. -/
def leadingRun (before : α → α → Except ε Bool) : List α → Except ε (List α × List α)
  | [] => .ok ([], [])
  | [x] => .ok ([x], [])
  | x :: y :: rest => do
    let descending ← before y x
    let (run, tail) ← extendRun before descending y [y, x] rest
    pure (if descending then run else run.reverse, tail)

/-- The place of an item between two places of a sorted list, found by halving. -/
def place (before : α → α → Except ε Bool) (sorted : List α) (x : α) :
    Nat → Nat → Nat → Except ε Nat
  | 0, low, _ => .ok low
  | fuel + 1, low, high =>
    if low ≥ high then .ok low
    else
      let mid := low + (high - low) / 2
      match sorted[mid]? with
      | none => .ok low
      | some y => do
        if ← before x y then place before sorted x fuel low mid
        else place before sorted x fuel (mid + 1) high

def insertAll (before : α → α → Except ε Bool) : List α → List α → Except ε (List α)
  | sorted, [] => .ok sorted
  | sorted, x :: rest => do
    let p ← place before sorted x sorted.length 0 sorted.length
    insertAll before (sorted.take p ++ x :: sorted.drop p) rest

/-- The items in order; equal ones keep their order. -/
def sort (before : α → α → Except ε Bool) (xs : List α) : Except ε (List α) := do
  let (run, rest) ← leadingRun before xs
  insertAll before run rest

end ShapeContract.Sorting
