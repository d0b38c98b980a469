import ShapeContract.Failure
import ShapeContract.Value.Equality

/-!
# Order of values

Numbers compare by value, texts by code points, sequences by their first difference, sets by
inclusion and moments in time. Values of different kinds do not compare.
-/

set_option autoImplicit false

namespace ShapeContract.Value

/-- `a < b`, or with `orEqual` `a ≤ b`, for values without parts. -/
def scalarBefore? (orEqual : Bool) (a b : Value) : Except Failure Bool :=
  match a.number?, b.number? with
  | some x, some y => .ok (x.lt y || (orEqual && x.same y))
  | some _, none => .error .typeMisuse
  | none, some _ => .error .typeMisuse
  | none, none =>
    match a.text?, b.text? with
    | some s, some t => .ok (s < t || (orEqual && s = t))
    | some _, none => .error .typeMisuse
    | none, some _ => .error .typeMisuse
    | none, none =>
      match a, b with
      | .datetime t, .datetime u =>
        match t.offset, u.offset with
        | some _, some _ => .ok (t.micros < u.micros || (orEqual && t.micros = u.micros))
        | none, none =>
          .ok (t.localMicros < u.localMicros || (orEqual && t.localMicros = u.localMicros))
        | _, _ => .error .typeMisuse
      | .date d, .date e => .ok (d.ordinal < e.ordinal || (orEqual && d.ordinal = e.ordinal))
      | _, _ => .error .typeMisuse

mutual

def before? (orEqual : Bool) : Value → Value → Except Failure Bool
  | .list vs, .list ws => listBefore? orEqual vs ws
  | .tuple vs, .tuple ws => listBefore? orEqual vs ws
  | .set vs, .set ws => .ok (allAmong vs ws && (orEqual || vs.length < ws.length))
  | a, b => scalarBefore? orEqual a b

def listBefore? (orEqual : Bool) : List Value → List Value → Except Failure Bool
  | [], [] => .ok orEqual
  | [], _ :: _ => .ok true
  | _ :: _, [] => .ok false
  | v :: vs, w :: ws => if equal v w then listBefore? orEqual vs ws else before? orEqual v w

end

def lt? (a b : Value) : Except Failure Bool := before? false a b

def le? (a b : Value) : Except Failure Bool := before? true a b

end ShapeContract.Value
