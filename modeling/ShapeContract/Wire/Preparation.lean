import ShapeContract.Wire.Coercion
import ShapeContract.Wire.Stack

/-!
# Preparation of payloads

Before a payload is checked, scalars are coerced if the options say so, members that a schema does
not declare are dropped unless they are allowed, and defaults fill the members that are missing. A
default is taken as it is. What is kept is copied, as far as the stack has room.
-/

set_option autoImplicit false

namespace ShapeContract.Wire

/-- How payloads are prepared. -/
structure Handling where
  coerceTypes : Bool
  allowUnknown : Bool
deriving DecidableEq, Repr

/-- A value coerced to the single type that the keywords ask for. -/
def coerced (h : Handling) (ks : List Keyword) (v : Value) : Except Failure Value :=
  match h.coerceTypes, Keyword.declared? ks with
  | true, some t => coerce t v
  | _, _ => .ok v

/-- The defaults of declared members that are missing. -/
def missingDefaults (ks : List Keyword) (present : Fields Value) : Fields Value :=
  (Keyword.propertiesOf ks).filterMap fun e =>
    if present.contains e.1 then none else e.2.default?.map fun v => (e.1, v)

/-- What becomes of a member: it is dropped, kept as it is, or prepared. -/
inductive Fate where
  | unknown
  | known (v : Except Failure Value)

/-- The prepared members, in order. -/
def settle (st : Stack) (h : Handling) (level : Nat) :
    List (String × Value × Fate) → Except Failure (Fields Value)
  | [] => .ok []
  | (name, v, fate) :: rest => do
    match fate with
    | .unknown =>
      if h.allowUnknown then
        let w ← st.copy level v
        let out ← settle st h level rest
        pure ((name, w) :: out)
      else settle st h level rest
    | .known w =>
      let w ← w
      let out ← settle st h level rest
      pure ((name, w) :: out)

/-- Members copied as they are. -/
def copyFields (st : Stack) (level : Nat) (fs : Fields Value) : Except Failure (Fields Value) :=
  fs.mapM fun e => (st.copy level e.2).map fun w => (e.1, w)

mutual

/-- A payload, or a part of one so many levels deep, prepared on a stack. What has no parts of its
own to prepare is copied. -/
def prepareWithin (st : Stack) (h : Handling) : Schema → Nat → Value → Except Failure Value
  | .always, level, v => do
    st.enter level
    st.copy level v
  | .never, level, v => do
    st.enter level
    st.copy level v
  | .document ks, level, v => do
    st.enter level
    let v ← coerced h ks v
    match Keyword.declared? ks, v with
    | some .object, .object fs => do
      let out ← settle st h level (fs.map fun e => (e.1, e.2, fateIn st h ks level e.1 e.2))
      let defaults ← copyFields st level (missingDefaults ks out)
      pure (.object (out ++ defaults))
    | some .array, .list vs => do
      let out ← vs.mapM (itemIn st h ks level)
      pure (.list out)
    | _, v => st.copy level v
termination_by structural s => s

/-- What becomes of a member under the declared properties. -/
def fateIn (st : Stack) (h : Handling) : List Keyword → Nat → String → Value → Fate
  | [], _, _, _ => .unknown
  | k :: rest, level, name, v =>
    match fateOf st h k level name v with
    | some fate => fate
    | none => fateIn st h rest level name v
termination_by structural ks => ks

def fateOf (st : Stack) (h : Handling) : Keyword → Nat → String → Value → Option Fate
  | .properties ps, level, name, v => some (fateAmong st h ps level name v)
  | _, _, _, _ => none
termination_by structural k => k

def fateAmong (st : Stack) (h : Handling) : List (String × Schema) → Nat → String → Value → Fate
  | [], _, _, _ => .unknown
  | (other, s) :: rest, level, name, v =>
    if other = name then .known (prepareWithin st h s (level + 1) v)
    else fateAmong st h rest level name v
termination_by structural ps => ps

/-- An item under the schema of the items; without one it is copied. -/
def itemIn (st : Stack) (h : Handling) : List Keyword → Nat → Value → Except Failure Value
  | [], level, v => do
    st.enter (level + 1)
    st.copy (level + 1) v
  | k :: rest, level, v =>
    match itemOf st h k level v with
    | some w => w
    | none => itemIn st h rest level v
termination_by structural ks => ks

def itemOf (st : Stack) (h : Handling) : Keyword → Nat → Value → Option (Except Failure Value)
  | .items s, level, v => some (prepareWithin st h s (level + 1) v)
  | _, _, _ => none
termination_by structural k => k

end

/-- A payload prepared, with room for every call. -/
def prepare (h : Handling) (s : Schema) (v : Value) : Except Failure Value :=
  prepareWithin .endless h s 0 v

end ShapeContract.Wire
