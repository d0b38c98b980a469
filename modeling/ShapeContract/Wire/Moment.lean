import ShapeContract.Calendar
import ShapeContract.Text.Classes

/-!
# Moments in payloads

The text of a moment: a full date, a time to the second with an optional fraction, and an offset. The
letters between them may be small; one line break may follow.
-/

set_option autoImplicit false

namespace ShapeContract.Wire

open Calendar (takeDigits)

/-- What follows a given character. -/
def after? (c : Char) : List Char → Option (List Char)
  | d :: rest => if c = d then some rest else none
  | [] => none

/-- Two digits of a value below a bound, and what follows them. -/
def takePair? (bound : Nat) (cs : List Char) : Option (Nat × List Char) := do
  let (n, rest) ← takeDigits 2 cs
  if n < bound then some (n, rest) else none

/-- What follows the fraction of a second, if there is one. -/
def afterFraction? : List Char → Option (List Char)
  | '.' :: rest =>
    if (rest.takeWhile Decimal.isDigit).isEmpty then none else some (rest.dropWhile Decimal.isDigit)
  | cs => some cs

/-- What follows the offset from universal time. -/
def afterOffset? : List Char → Option (List Char)
  | 'Z' :: rest => some rest
  | c :: rest => do
    if c ≠ '+' ∧ c ≠ '-' then none
    let (_, rest) ← takePair? 24 rest
    let rest ← after? ':' rest
    let (_, rest) ← takePair? 60 rest
    pure rest
  | [] => none

def isMomentText (cs : List Char) : Bool :=
  let tail := do
    let (year, rest) ← takeDigits 4 cs
    let rest ← after? '-' rest
    let (month, rest) ← takePair? 13 rest
    let rest ← after? '-' rest
    let (day, rest) ← takePair? 100 rest
    let rest ← after? 'T' rest
    let (_, rest) ← takePair? 24 rest
    let rest ← after? ':' rest
    let (_, rest) ← takePair? 60 rest
    let rest ← after? ':' rest
    let (_, rest) ← takePair? 60 rest
    let rest ← afterFraction? rest
    let rest ← afterOffset? rest
    if Calendar.validDay year month day then some rest else none
  match tail with
  | some [] => true
  | some ['\n'] => true
  | _ => false

/-- Whether a text is a moment. -/
def isMoment (s : String) : Bool := isMomentText (s.toList.flatMap Text.upperChars)

end ShapeContract.Wire
