import ShapeContract.Failure
import ShapeContract.Text.WholeNumber
import ShapeContract.Value.Basic

/-!
# Pages

A page number and a page size from loose values: pages count from one, a page has from one to 200
items and, unless it is said otherwise, 20. What is no number counts as not given.
-/

set_option autoImplicit false

namespace ShapeContract

structure Page where
  number : Int
  size : Int
deriving DecidableEq, Repr

namespace Page

def defaultSize : Int := 20

def maxSize : Int := 200

/-- The whole number that a value is or is the text of; an infinite one has none. -/
def wholeOf (v : Value) : Except Failure (Option Int) :=
  match v with
  | .bool b => .ok (some (if b then 1 else 0))
  | .int i => .ok (some i)
  | .float (.infinite _) => .error (.misuse .overflow)
  | .float x => .ok x.truncated?
  | v => .ok (v.text?.bind fun s => Text.wholeNumber? s.toList)

/-- A number, or another one in the place of zero and of none. -/
def orElse (given : Option Int) (other : Int) : Int :=
  match given with
  | some i => if i = 0 then other else i
  | none => other

/-- The page that two loose values ask for. -/
def ofValues (number size : Value) : Except Failure Page := do
  let n ← wholeOf number
  let s ← wholeOf size
  pure ⟨max 1 (orElse n 1), max 1 (min maxSize (orElse s defaultSize))⟩

def skip (p : Page) : Int := (p.number - 1) * p.size

def limit (p : Page) : Int := p.size

/-- The items on the page. -/
def cut {α : Type} (p : Page) (xs : List α) : List α := (xs.drop p.skip.toNat).take p.limit.toNat

end Page

end ShapeContract
