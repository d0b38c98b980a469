import ShapeContract.Double.Basic

/-!
# Numbers

Integers of any size and doubles in one order: comparison between the two kinds is exact. A double
that is no number is equal to nothing and before nothing.
-/

set_option autoImplicit false

namespace ShapeContract

inductive Number where
  | int (i : Int)
  | double (x : Double)
deriving DecidableEq

namespace Number

def rank? : Number → Option Double.Rank
  | .int i => some (.ofInt i)
  | .double x => x.rank?

def same : Number → Number → Bool
  | .int i, .int j => i = j
  | a, b =>
    match a.rank?, b.rank? with
    | some r, some s => r = s
    | _, _ => false

def lt : Number → Number → Bool
  | .int i, .int j => i < j
  | a, b =>
    match a.rank?, b.rank? with
    | some r, some s => r.lt s
    | _, _ => false

def le (a b : Number) : Bool := a.lt b || a.same b

end Number

end ShapeContract
