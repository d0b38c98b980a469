import ShapeContract.Failure
import ShapeContract.Value.Basic

/-!
# Journal records and traced computations

A traced computation has an outcome and the records that it wrote, which stay when it fails. Of the
outcome alone, `bind` is that of `Except`.
-/

set_option autoImplicit false

namespace ShapeContract

inductive Level where
  | debug | info | warning | error | critical
deriving DecidableEq, Repr

/-- The parts of the program that write records. -/
inductive Channel where
  | introspection | registry | validators | engine | policy | body | errorHandlers | application
deriving DecidableEq, Repr

namespace Channel

def text : Channel → String
  | .introspection => "dtoforge.core.introspect_schema"
  | .registry => "dtoforge.services.cache_registry"
  | .validators => "dtoforge.services.compile_validator"
  | .engine => "dtoforge.infrastructure.jsonschema_engine"
  | .policy => "dtoforge.services.policy_pipeline"
  | .body => "dtoforge.api.validated_body"
  | .errorHandlers => "dtoforge.api.error_handlers"
  | .application => "dtoforge.main"

end Channel

namespace Level

def text : Level → String
  | .debug => "DEBUG"
  | .info => "INFO"
  | .warning => "WARNING"
  | .error => "ERROR"
  | .critical => "CRITICAL"

def rank : Level → Nat
  | .debug => 10
  | .info => 20
  | .warning => 30
  | .error => 40
  | .critical => 50

end Level

structure JournalRecord where
  level : Level
  channel : Channel
  message : String
  extras : Fields Value

structure Traced (α : Type) where
  outcome : Except Failure α
  records : List JournalRecord

namespace Traced

variable {α β : Type}

def pure (a : α) : Traced α := ⟨.ok a, []⟩

def bind (x : Traced α) (f : α → Traced β) : Traced β :=
  match x.outcome with
  | .error e => ⟨.error e, x.records⟩
  | .ok a => ⟨(f a).outcome, x.records ++ (f a).records⟩

instance : Monad Traced where
  pure := Traced.pure
  bind := Traced.bind

def fail (e : Failure) : Traced α := ⟨.error e, []⟩

def lift (x : Except Failure α) : Traced α := ⟨x, []⟩

def note (r : JournalRecord) : Traced Unit := ⟨.ok (), [r]⟩

@[simp] theorem outcome_pure (a : α) : (Pure.pure a : Traced α).outcome = .ok a := rfl

@[simp] theorem outcome_bind (x : Traced α) (f : α → Traced β) :
    (x >>= f).outcome = x.outcome >>= fun a => (f a).outcome := by
  show (Traced.bind x f).outcome = _
  rcases x with ⟨o, l⟩
  cases o <;> rfl

@[simp] theorem outcome_lift (x : Except Failure α) : (lift x).outcome = x := rfl

@[simp] theorem outcome_fail (e : Failure) : (fail e : Traced α).outcome = .error e := rfl

@[simp] theorem outcome_note (r : JournalRecord) : (note r).outcome = .ok () := rfl

end Traced

end ShapeContract
