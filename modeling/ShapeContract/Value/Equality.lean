import ShapeContract.Value.Basic

/-!
# Equality of values

Numbers are equal by value whatever their type, `false` and `true` counting as zero and one; a
double that is no number equals nothing. Sequences are equal item by item, mappings and sets
whatever their order, moments with an offset as instants.
-/

set_option autoImplicit false

namespace ShapeContract.Value

/-- Equality of values without parts. -/
def sameScalar (a b : Value) : Bool :=
  match a.number?, b.number? with
  | some x, some y => x.same y
  | some _, none => false
  | none, some _ => false
  | none, none =>
    match a.text?, b.text? with
    | some s, some t => s = t
    | some _, none => false
    | none, some _ => false
    | none, none =>
      match a, b with
      | .null, .null => true
      | .regex s f, .regex t g => s = t && f = g
      | .native t, .native u => t = u
      | .enumeration n _ _, .enumeration m _ _ => n = m
      | .member o l _ _, .member p m _ _ => o = p && l = m
      | .datetime t, .datetime u =>
        match t.offset, u.offset with
        | some _, some _ => t.micros = u.micros
        | none, none => t.localMicros = u.localMicros
        | _, _ => false
      | .date d, .date e => d = e
      | .callable, .callable => true
      | .source r, .source q => r.id = q.id
      | _, _ => false

mutual

def equal : Value → Value → Bool
  | .list vs, .list ws => equalList vs ws
  | .tuple vs, .tuple ws => equalList vs ws
  | .set vs, .set ws => vs.length = ws.length && allAmong vs ws
  | .object fs, .object gs => fs.length = gs.length && fieldsWithin fs gs
  | .rule fs, .rule gs => fs.length = gs.length && fieldsWithin fs gs
  | .mapping ks vs, .mapping ls ws =>
    ks.length = ls.length && (partners ks (ls.zip ws)).any fun us => equalList vs us
  | a, b => sameScalar a b
termination_by structural v => v

def equalList : List Value → List Value → Bool
  | [], [] => true
  | v :: vs, w :: ws => equal v w && equalList vs ws
  | _, _ => false
termination_by structural vs => vs

def allAmong : List Value → List Value → Bool
  | [], _ => true
  | v :: vs, ws => ws.any (fun w => equal v w) && allAmong vs ws
termination_by structural vs => vs

def fieldsWithin : List (String × Value) → List (String × Value) → Bool
  | [], _ => true
  | (k, v) :: rest, gs =>
    (match Fields.get? gs k with
      | some w => equal v w
      | none => false) && fieldsWithin rest gs
termination_by structural fs => fs

/-- What the entries give for each of the keys, if they have them all. -/
def partners : List Value → List (Value × Value) → Option (List Value)
  | [], _ => some []
  | k :: ks, es => do
    let e ← es.find? fun e => equal k e.1
    let us ← partners ks es
    pure (e.2 :: us)
termination_by structural ks => ks

end

theorem equal_str (s t : String) : equal (.str s) (.str t) = decide (s = t) := rfl

/-- Membership by equality. -/
def among (v : Value) (vs : List Value) : Bool := vs.any fun w => equal v w

theorem among_texts (name : String) (names : List String) :
    among (.str name) (names.map .str) = decide (name ∈ names) := by
  rw [among, List.any_map, Bool.eq_iff_iff, decide_eq_true_iff, List.any_eq_true]
  simp [equal_str]

/-- Without later items that equal an earlier one. -/
def distinct (vs : List Value) : List Value :=
  vs.foldl (fun acc v => if among v acc then acc else acc ++ [v]) []

/-- Members without those that have the value of an earlier member. -/
def withoutAliases (ms : List (String × Value)) : List (String × Value) :=
  ms.foldl (fun acc m => if among m.2 (acc.map Prod.snd) then acc else acc ++ [m]) []

end ShapeContract.Value
