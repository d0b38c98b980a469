import ShapeContract.Registry.Derivation

/-!
# Computations on a registry

What a computation answers and what it makes of the registry does not depend on the journal.
`RegistryM.Yields` says both at once; one rule for each operation, and computations are taken apart
with them.
-/

set_option autoImplicit false

namespace ShapeContract.RegistryM

variable {α β : Type} {x : RegistryM α} {f : α → RegistryM β} {r r' r'' : Registry}

/-- Started on a registry, a computation answers and leaves another registry, whatever the journal. -/
def Yields (x : RegistryM α) (r : Registry) (answer : Except Failure α) (r' : Registry) : Prop :=
  ∀ journal, ∃ journal', x.run ⟨r, journal⟩ = (answer, ⟨r', journal'⟩)

namespace Yields

theorem pure (a : α) : Yields (Pure.pure a) r (.ok a) r := fun journal => ⟨journal, rfl⟩

theorem throw (e : Failure) : Yields (MonadExcept.throw e : RegistryM α) r (.error e) r :=
  fun journal => ⟨journal, rfl⟩

theorem bind {a : α} {answer : Except Failure β} (first : Yields x r (.ok a) r')
    (second : Yields (f a) r' answer r'') : Yields (x >>= f) r answer r'' := by
  intro journal
  obtain ⟨journal', runX⟩ := first journal
  obtain ⟨journal'', runF⟩ := second journal'
  refine ⟨journal'', ?_⟩
  rw [ExceptT.run_bind]
  simp only [Bind.bind, StateT.bind, runX]
  exact runF

theorem bind_error {e : Failure} (first : Yields x r (.error e) r') :
    Yields (x >>= f) r (.error e) r' := by
  intro journal
  obtain ⟨journal', runX⟩ := first journal
  refine ⟨journal', ?_⟩
  rw [ExceptT.run_bind]
  simp only [Bind.bind, StateT.bind, runX]
  rfl

theorem lift {y answer : Except Failure α} (result : y = answer) : Yields (liftM y) r answer r :=
  fun journal => ⟨journal, by rw [result]; rfl⟩

theorem note (record : JournalRecord) : Yields (RegistryM.note record) r (.ok ()) r :=
  fun journal => ⟨journal ++ [record], rfl⟩

theorem registry : Yields RegistryM.registry r (.ok r) r := fun journal => ⟨journal, rfl⟩

theorem change (g : Registry → Registry) : Yields (RegistryM.change g) r (.ok ()) (g r) :=
  fun journal => ⟨journal, rfl⟩

theorem store (a : α) :
    Yields (RegistryM.store a) r (.ok ⟨r.nextId, a⟩) { r with nextId := r.nextId + 1 } :=
  fun journal => ⟨journal, rfl⟩

theorem perform {t : Traced α} {answer : Except Failure α} (outcome : t.outcome = answer) :
    Yields (RegistryM.perform t) r answer r := by
  intro journal
  refine ⟨journal ++ t.records, ?_⟩
  unfold RegistryM.perform
  rw [outcome]
  cases answer <;> rfl

end Yields

end ShapeContract.RegistryM
