import ShapeContract.Value.Entries

/-!
# Projections

A projection marks fields with one, to keep them alone, or with zero, to drop them. As soon as one
field is kept, the dropped ones do not matter.
-/

set_option autoImplicit false

namespace ShapeContract

/-- Fields with their marks. -/
abbrev Projection := Entries

namespace Projection

def isKept (mark : Value) : Bool := mark.equal (.int 1)

def isDropped (mark : Value) : Bool := mark.equal (.int 0)

/-- Marks the fields that a value lists. -/
def markAll (mark : Int) (fields : Value) (p : Projection) : Except Failure Projection := do
  if !fields.truthy then return p
  (← fields.items).foldlM (fun (p : Projection) field =>
    if field.hashable then .ok (p.put field (.int mark)) else .error .typeMisuse) p

/-- The projection that keeps some fields and drops others. -/
def ofLists (kept dropped : Value) : Except Failure Projection := do
  markAll 0 dropped (← markAll 1 kept [])

/-- Whether a text holds another. -/
def holdsText (part whole : List Char) : Bool :=
  part.isPrefixOf whole || match whole with
    | [] => false
    | _ :: rest => holdsText part rest
termination_by whole

/-- Whether something that is no mapping has a field; if it has one, that cannot be taken. -/
def refuseField (item field : Value) : Except Failure Unit :=
  match item.text? with
  | some s =>
    match field.text? with
    | some f => if holdsText f.toList s.toList then .error .typeMisuse else .ok ()
    | none => .error .typeMisuse
  | none =>
    match item.items? with
    | some vs => if field.among vs then .error .typeMisuse else .ok ()
    | none => .error .typeMisuse

/-- The kept fields of an item, in the order of the projection. -/
def keepFields (fields : List Value) (item : Value) : Except Failure Entries :=
  match item.entries? with
  | some es => .ok (fields.filterMap fun f => (es.get? f).map fun v => (f, v))
  | none => do
    let _ ← fields.mapM (refuseField item)
    pure []

/-- An item without the dropped fields. -/
def dropFields (fields : List Value) (item : Value) : Except Failure Entries := do
  return (← item.entries).filter fun e => !e.1.among fields

/-- One item under a projection that is not empty. -/
def applyTo (p : Projection) (item : Value) : Except Failure Entries :=
  let kept := p.filter fun e => isKept e.2
  if kept.isEmpty then
    dropFields ((p.filter fun e => isDropped e.2).map Prod.fst) item
  else keepFields (kept.map Prod.fst) item

/-- The items under a projection, in order. -/
def apply (projection items : Value) : Except Failure (List Value) := do
  if projection.truthy then
    let p ← projection.entries
    let out ← (← items.items).mapM (applyTo p)
    pure (out.map Entries.toValue)
  else
    let out ← (← items.items).mapM Value.asEntries
    pure (out.map Entries.toValue)

end Projection

end ShapeContract
