import ShapeContract.Proofs.Introspection.Records
import ShapeContract.Proofs.Registry.Lookups

/-!
# Thrift

A schema is introspected only if no tree is kept for it, and one that has been introspected has a
tree. `RegistryM.Thrifty` says so of a computation, as a bound on the records of introspection; it is
composed like the computation itself.
-/

set_option autoImplicit false

namespace ShapeContract

/-- How many introspections have ended. -/
def Desk.introspections (d : Desk) : Nat := d.journal.countP JournalRecord.isIntrospection

/-- How many trees are kept under a handle. -/
def Registry.treeCount (r : Registry) (handle : Nat) : Nat := (r.trees.contains handle).toNat

/-- At most one tree is kept for a handle. -/
theorem Registry.treeCount_le (r : Registry) (handle : Nat) : r.treeCount handle ≤ 1 :=
  Bool.toNat_le _

namespace RegistryM

variable {α β : Type} {handle : Nat}

/-- Every introspection leaves a tree where none was. -/
def ThriftyAt (handle : Nat) (x : RegistryM α) (d : Desk) : Prop :=
  (x.run d).2.introspections + d.registry.treeCount handle ≤
    d.introspections + (x.run d).2.registry.treeCount handle

def Thrifty (handle : Nat) (x : RegistryM α) : Prop := ∀ d, ThriftyAt handle x d

namespace ThriftyAt

theorem bind {x : RegistryM α} {f : α → RegistryM β} {d : Desk} (first : ThriftyAt handle x d)
    (second : ∀ a, ThriftyAt handle (f a) (x.run d).2) : ThriftyAt handle (x >>= f) d := by
  unfold ThriftyAt at *
  rw [ExceptT.run_bind]
  simp only [Bind.bind, StateT.bind]
  generalize x.run d = out at first second ⊢
  obtain ⟨answer, d'⟩ := out
  cases answer with
  | error e => exact first
  | ok a =>
    have later := second a
    dsimp only at first later ⊢
    omega

/-- Looking at the registry costs no introspection, so only the rest counts, on the registry seen.
-/
theorem registry_bind {f : Registry → RegistryM α} {d : Desk}
    (rest : ThriftyAt handle (f d.registry) d) : ThriftyAt handle (RegistryM.registry >>= f) d :=
  rest

end ThriftyAt

namespace Thrifty

/-- Two thrifty steps in sequence are thrifty. -/
theorem bind {x : RegistryM α} {f : α → RegistryM β} (first : Thrifty handle x)
    (second : ∀ a, Thrifty handle (f a)) : Thrifty handle (x >>= f) :=
  fun d => (first d).bind fun a => second a _

/-- Answering costs nothing … -/
theorem pure (a : α) : Thrifty handle (Pure.pure a : RegistryM α) := fun _ => Nat.le_refl _

theorem lift (x : Except Failure α) : Thrifty handle (liftM x : RegistryM α) := by
  cases x <;> exact fun _ => Nat.le_refl _

theorem registry : Thrifty handle RegistryM.registry := fun _ => Nat.le_refl _

/-- … and so does a note of anything but an introspection. -/
theorem note {record : JournalRecord} (other : record.isIntrospection = false) :
    Thrifty handle (RegistryM.note record) := by
  intro d
  have journal : (d.journal ++ [record]).countP JournalRecord.isIntrospection =
      d.introspections := by
    simp [Desk.introspections, other]
  exact Nat.add_le_add_right (Nat.le_of_eq journal) _

/-- A change that takes no tree away. -/
theorem change {f : Registry → Registry}
    (more : ∀ r : Registry, r.treeCount handle ≤ (f r).treeCount handle) :
    Thrifty handle (RegistryM.change f) :=
  fun d => Nat.add_le_add_left (more d.registry) _

theorem store (a : α) : Thrifty handle (RegistryM.store a) :=
  bind registry fun _ => bind (change fun _ => Nat.le_refl _) fun _ => pure _

/-- A quiet computation introspects nothing. -/
theorem perform {x : Traced α} (quiet : x.Quiet) : Thrifty handle (RegistryM.perform x) := by
  intro d
  have journal : (d.journal ++ x.records).countP JournalRecord.isIntrospection =
      d.introspections := by
    rw [List.countP_append, show x.records.countP _ = 0 from quiet.introspections]
    rfl
  unfold RegistryM.perform ThriftyAt
  obtain ⟨outcome, records⟩ := x
  cases outcome <;> exact Nat.add_le_add_right (Nat.le_of_eq journal) _

end Thrifty

/-- Keeping a tree never takes one away. -/
theorem treeCount_put (r : Registry) (s : Subject) (tree : Stored Rule) :
    r.treeCount handle ≤ ({ r with trees := r.trees.put s.handle tree } : Registry).treeCount handle
    := by
  unfold Registry.treeCount
  by_cases same : handle = s.handle
  · subst same
    rw [show (Table.contains _ s.handle) = true from Table.contains_put_self ..]
    exact Bool.toNat_le _
  · rw [show (Table.contains _ handle) = _ from Table.contains_put_of_ne r.trees tree same]

/-- Registering a schema builds nothing. -/
theorem thrifty_register (s : Subject) : Thrifty handle (register s) := by
  refine .bind .registry fun r => ?_
  split
  · exact .pure _
  · split
    · exact .change fun _ => Nat.le_refl _
    · exact .bind (.change fun _ => Nat.le_refl _) fun _ => .note rfl

/-- **A tree is built only where none is kept, and then is kept.** -/
theorem thrifty_treeOf (s : Subject) {build : Value → Traced Rule}
    (once : (build s.value).introspections = if (build s.value).outcome.isOk then 1 else 0) :
    Thrifty s.handle (treeOf (some s) build) := by
  intro d
  refine (thrifty_register s d).bind fun _ => ?_
  generalize ((register s).run d).2 = d
  refine .registry_bind ?_
  cases kept : d.registry.trees.get? s.handle with
  | some tree => exact Thrifty.bind (.note rfl) (fun _ => .pure tree) d
  | none =>
    have missing : d.registry.treeCount s.handle = 0 := by
      simp [Registry.treeCount, Table.contains, kept]
    have miss : (treeRecord "miss").isIntrospection = false := rfl
    unfold ThriftyAt
    generalize build s.value = built at once
    obtain ⟨outcome, records⟩ := built
    cases outcome with
    | error e =>
      have none : records.countP JournalRecord.isIntrospection = 0 := once
      change (d.journal ++ [_] ++ records).countP JournalRecord.isIntrospection + _ ≤
        d.journal.countP _ + _
      rw [List.countP_append, List.countP_append, none, List.countP_singleton, miss]
      exact Nat.le_refl _
    | ok tree =>
      have one : records.countP JournalRecord.isIntrospection = 1 := once
      change (d.journal ++ [_] ++ records).countP JournalRecord.isIntrospection + _ ≤
        d.journal.countP _ + ((Table.put d.registry.trees s.handle ⟨_, tree⟩).contains _).toNat
      rw [List.countP_append, List.countP_append, one, List.countP_singleton, miss, missing,
        Table.contains_put_self]
      exact Nat.le_refl _

/-! ## The stages -/

/-- The tree is introspected only where none is kept, and then one is. -/
theorem thrifty_compileTree (env : Environment) (s : Subject) :
    Thrifty s.handle (compileTree env (some s)) :=
  .bind (.lift _) fun bound =>
    thrifty_treeOf s (Introspection.introspections_introspect env.catalog bound s.value)

theorem thrifty_bucketOf (schema : Option Subject) : Thrifty handle (bucketOf schema) := by
  cases schema with
  | none => exact .bind .registry fun _ => .pure _
  | some s =>
    refine .bind (thrifty_register s) fun _ => .bind .registry fun r => ?_
    split
    · exact .pure _
    · exact .bind (.change fun _ => Nat.le_refl _) fun _ => .pure _

theorem thrifty_changeBucket (schema : Option Subject) (f : Bucket → Bucket) :
    Thrifty handle (changeBucket schema f) := by
  refine .change fun r => ?_
  cases schema <;> exact Nat.le_refl _

/-- A document costs what its tree costs. -/
theorem thrifty_document (env : Environment) (s : Subject) (o : Overrides) (allowUnknown : Bool) :
    Thrifty s.handle (document env (some s) o allowUnknown) :=
  .bind (thrifty_compileTree env s) fun _ => .bind (.lift _) fun _ =>
    .bind (.change fun r => treeCount_put r s _) fun _ => .pure _

/-- Emitting introspects at most once … -/
theorem thrifty_emit (env : Environment) (s : Subject) (o : Overrides) (opts : ValidatorOptions) :
    Thrifty s.handle (emit env (some s) o opts) := by
  refine .bind (.lift _) fun key => .bind (thrifty_bucketOf _) fun bucket => ?_
  split
  · exact .bind (.note rfl) fun _ => .pure _
  · exact .bind (.note rfl) fun _ => .bind (thrifty_document env s o _) fun document =>
      .bind (.store document) fun _ => .bind (thrifty_changeBucket _ _) fun _ => .pure _

/-- Compiling a document never turns to the schema. -/
theorem quiet_compile [CharacterNames] (h : Wire.Handling) (document : Value) :
    (Wire.compile h document).Quiet := by
  unfold Wire.compile
  split
  · exact .pure _
  · exact .fail _
  · refine .bind ?_ fun _ => .fail _
    intro r inside
    obtain rfl := List.mem_singleton.1 inside
    rfl

/-- … and building a validator no more than that. -/
theorem thrifty_build [CharacterNames] (env : Environment) (s : Subject) (o : Overrides)
    (opts : ValidatorOptions) :
    Thrifty s.handle (build env (some s) o opts) := by
  refine .bind (.lift _) fun key => .bind (thrifty_bucketOf _) fun bucket => ?_
  split
  · exact .bind (.note rfl) fun _ => .pure _
  · exact .bind (.note rfl) fun _ => .bind (thrifty_emit env s o opts) fun wire =>
      .bind (.perform (quiet_compile _ _)) fun validator => .bind (.store validator) fun _ =>
        .bind (thrifty_changeBucket _ _) fun _ => .pure _

end RegistryM

end ShapeContract
