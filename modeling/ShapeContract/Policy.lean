import ShapeContract.Journal

/-!
# Policy hooks

Six points in the life of a document, each with an optional hook. A hook works on the context of the
request alone; it can break off the request. What it has changed before that stays.
-/

set_option autoImplicit false

namespace ShapeContract

inductive LifecyclePoint where
  | beforeCreate | afterCreate | beforeUpdate | afterUpdate | beforeDelete | afterDelete
deriving DecidableEq, Repr

namespace LifecyclePoint

def text : LifecyclePoint → String
  | .beforeCreate => "before_create"
  | .afterCreate => "after_create"
  | .beforeUpdate => "before_update"
  | .afterUpdate => "after_update"
  | .beforeDelete => "before_delete"
  | .afterDelete => "after_delete"

def all : List LifecyclePoint :=
  [.beforeCreate, .afterCreate, .beforeUpdate, .afterUpdate, .beforeDelete, .afterDelete]

def ofText? (s : String) : Option LifecyclePoint := all.find? fun p => p.text = s

/-- Whether the hook is also given the document that came of the operation. -/
def hasDocument : LifecyclePoint → Bool
  | .afterCreate => true
  | .afterUpdate => true
  | _ => false

theorem ofText?_text (p : LifecyclePoint) : ofText? p.text = some p := by cases p <;> rfl

end LifecyclePoint

/-- What every hook is given and may change. -/
structure PolicyContext where
  actor : Value := .null
  session : Value := .null
  id : Value := .null
  data : Value := .null
  update : Value := .null
  notes : Fields Value := []

/-- A failure raised by a hook, by its kind and its text. -/
structure PolicyRefusal where
  kind : String
  message : String
deriving DecidableEq, Repr

/-- A hook: given the documents of the operation it changes the context and may refuse. -/
abbrev Hook := List Value → PolicyContext → PolicyContext × Option PolicyRefusal

namespace PolicyContext

/-- The context with one of its fields set; a name of no field sets nothing. -/
def set (c : PolicyContext) (field : String) (v : Value) : PolicyContext :=
  match field with
  | "actor" => { c with actor := v }
  | "session" => { c with session := v }
  | "id" => { c with id := v }
  | "data" => { c with data := v }
  | "update" => { c with update := v }
  | "meta" => { c with notes := v.fields?.getD [] }
  | _ => c

def fields : List String := ["actor", "session", "id", "data", "update", "meta"]

end PolicyContext

/-- One step of a hook that is given as data. -/
inductive HookAction where
  | set (field : String) (v : Value)
  | note (key : String) (v : Value)
  /-- Notes the documents that the hook was given. -/
  | noteDocuments (key : String)
  | refuse (r : PolicyRefusal)

/-- The hook that does some actions in order, up to the first refusal. -/
def Hook.ofActions : List HookAction → Hook
  | [], _, c => (c, none)
  | .set field v :: rest, documents, c => ofActions rest documents (c.set field v)
  | .note key v :: rest, documents, c =>
    ofActions rest documents { c with notes := c.notes.put key v }
  | .noteDocuments key :: rest, documents, c =>
    ofActions rest documents { c with notes := c.notes.put key (.list documents) }
  | .refuse r :: _, _, c => (c, some r)

/-- At most one hook for each point. -/
abbrev PolicyHooks := LifecyclePoint → Option Hook

/-- The context after a point in the life of a document, the refusal, if any, and the records. -/
structure PolicyRun where
  context : PolicyContext
  refusal : Option PolicyRefusal
  records : List JournalRecord

namespace PolicyHooks

def none : PolicyHooks := fun _ => .none

def set (hooks : PolicyHooks) (p : LifecyclePoint) (h : Option Hook) : PolicyHooks :=
  fun q => if q = p then h else hooks q

def record (p : LifecyclePoint) : JournalRecord :=
  ⟨.debug, .policy, "Running policy hook " ++ p.text, [("hook", .str p.text)]⟩

/-- Runs the hook of a point; without one nothing happens. -/
def run (hooks : PolicyHooks) (p : LifecyclePoint) (documents : List Value) (c : PolicyContext) :
    PolicyRun :=
  match hooks p with
  | .none => ⟨c, .none, []⟩
  | some hook =>
    let (c, refusal) := hook documents c
    ⟨c, refusal, [record p]⟩

end PolicyHooks

end ShapeContract
