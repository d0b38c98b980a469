import ShapeContract.Proofs.Registry.Yields

/-!
# What lookups make of a registry

Registering a schema changes what is known of handles and nothing that is kept. A lookup answers
with what is kept under the handle; where there is nothing it makes it, and keeps it.
-/

set_option autoImplicit false

namespace ShapeContract

/-! ## Tables -/

namespace Table

variable {α : Type}

@[simp] theorem contains_put_self (t : Table α) (handle : Nat) (x : α) :
    (t.put handle x).contains handle = true := by
  simp [contains]

/-- An entry under one handle does not show under another. -/
theorem contains_put_of_ne (t : Table α) {handle other : Nat} (x : α) (ne : other ≠ handle) :
    (t.put handle x).contains other = t.contains other := by
  simp [contains, get?_put_of_ne t x ne]

/-- A table contains the handles it answers for … -/
theorem contains_iff {t : Table α} {handle : Nat} :
    t.contains handle = true ↔ ∃ x, t.get? handle = some x := Option.isSome_iff_exists

/-- … and no others. -/
theorem contains_eq_false_iff {t : Table α} {handle : Nat} :
    t.contains handle = false ↔ t.get? handle = none := by
  simp [contains]

/-- What is found is an entry of the table. -/
theorem mem_of_get? {t : Table α} {handle : Nat} {x : α} (found : t.get? handle = some x) :
    (handle, x) ∈ t := by
  induction t with
  | nil => cases found
  | cons e rest ih =>
    obtain ⟨h, y⟩ := e
    rw [get?] at found
    split at found
    next same =>
      cases found
      exact same ▸ List.mem_cons_self
    next => exact List.mem_cons_of_mem _ (ih found)

/-- Where nothing stands there is nothing to erase. -/
theorem erase_of_get?_none {t : Table α} {handle : Nat} (absent : t.get? handle = none) :
    t.erase handle = t := by
  induction t with
  | nil => rfl
  | cons e rest ih =>
    obtain ⟨h, y⟩ := e
    rw [get?] at absent
    split at absent
    next => cases absent
    next other =>
      have tail : rest.filter (fun e => decide (e.1 ≠ handle)) = rest := ih absent
      rw [erase, List.filter_cons_of_pos (by simpa using other), tail]

@[simp] theorem contains_erase_self (t : Table α) (handle : Nat) :
    (t.erase handle).contains handle = false := by
  simp [contains]

/-- Erasing a handle leaves the others. -/
theorem contains_erase_of_ne (t : Table α) {handle other : Nat} (ne : other ≠ handle) :
    (t.erase handle).contains other = t.contains other := by
  simp [contains, get?_erase_of_ne t ne]

@[simp] theorem erase_erase (t : Table α) (handle : Nat) :
    (t.erase handle).erase handle = t.erase handle :=
  erase_of_get?_none (get?_erase_self t handle)

end Table

/-! ## Registering -/

namespace Registry

/-- The registry in which a schema has been registered. -/
def enrolled (r : Registry) (s : Subject) : Registry :=
  if r.registered s.handle then r
  else if s.watchable then { r with watched := r.watched ++ [s.handle] }
  else { r with pinned := r.pinned.put s.handle s.value }

/-- A schema is registered if it is watched or pinned. -/
theorem registered_iff {r : Registry} {handle : Nat} : r.registered handle = true ↔
    handle ∈ r.watched ∨ r.pinned.contains handle = true := by
  simp [registered]

variable (r : Registry) (s : Subject)

@[simp] theorem trees_enrolled : (r.enrolled s).trees = r.trees := by
  unfold enrolled
  split
  · rfl
  · split <;> rfl

@[simp] theorem buckets_enrolled : (r.enrolled s).buckets = r.buckets := by
  unfold enrolled
  split
  · rfl
  · split <;> rfl

@[simp] theorem unbound_enrolled : (r.enrolled s).unbound = r.unbound := by
  unfold enrolled
  split
  · rfl
  · split <;> rfl

@[simp] theorem nextId_enrolled : (r.enrolled s).nextId = r.nextId := by
  unfold enrolled
  split
  · rfl
  · split <;> rfl

/-- After enrolling, the schema is registered. -/
theorem registered_enrolled : (r.enrolled s).registered s.handle = true := by
  unfold enrolled
  split
  · assumption
  · split <;> simp [registered_iff]

end Registry

namespace Registry

/-- The registry in which a schema has a bucket. -/
def furnished (r : Registry) (s : Subject) : Registry :=
  { r.enrolled s with
    buckets := if r.buckets.contains s.handle then r.buckets else r.buckets.put s.handle {} }

/-- A furnished schema has a bucket of its own. -/
theorem contains_furnished (r : Registry) (s : Subject) :
    (r.furnished s).buckets.contains s.handle = true := by
  unfold furnished
  dsimp only
  split
  · assumption
  · exact Table.contains_put_self _ _ _

/-- A new bucket is empty, and the others are as they were. -/
theorem bucket_furnished (r : Registry) (s : Subject) (handle : Nat) :
    ((r.furnished s).buckets.get? handle).getD {} = (r.buckets.get? handle).getD {} := by
  unfold furnished
  dsimp only
  split
  · rfl
  next missing =>
    by_cases same : handle = s.handle
    · subst same
      rw [Table.get?_put_self, Table.contains_eq_false_iff.1 (Bool.not_eq_true _ ▸ missing)]
      rfl
    · rw [Table.get?_put_of_ne _ _ same]

end Registry

/-! ## Looking up -/

namespace RegistryM

variable {r : Registry}

/-- Registering enrols the schema and answers nothing. -/
theorem yields_enrolled (s : Subject) (r : Registry) :
    Yields (register s) r (.ok ()) (r.enrolled s) := by
  unfold register Registry.enrolled
  refine Yields.bind Yields.registry ?_
  by_cases known : r.registered s.handle = true
  · rw [if_pos known, if_pos known]
    exact Yields.pure ()
  · rw [if_neg known, if_neg known]
    by_cases watchable : s.watchable = true
    · rw [if_pos watchable, if_pos watchable]
      exact Yields.change _
    · rw [if_neg watchable, if_neg watchable]
      exact Yields.bind (Yields.change _) (Yields.note _)

section Tree

variable {s : Subject} {build : Value → Traced Rule}

/-- The kept tree is the answer. -/
theorem yields_treeOf_kept {tree : Stored Rule} (kept : r.trees.get? s.handle = some tree) :
    Yields (treeOf (some s) build) r (.ok tree) (r.enrolled s) := by
  refine Yields.bind (yields_enrolled s r) (Yields.bind Yields.registry ?_)
  rw [Registry.trees_enrolled, kept]
  exact Yields.bind (Yields.note _) (Yields.pure tree)

/-- A tree that cannot be built is not kept, but its schema stays enrolled. -/
theorem yields_treeOf_failed {e : Failure} (missing : r.trees.get? s.handle = none)
    (fails : (build s.value).outcome = .error e) :
    Yields (treeOf (some s) build) r (.error e) (r.enrolled s) := by
  refine Yields.bind (yields_enrolled s r) (Yields.bind Yields.registry ?_)
  rw [Registry.trees_enrolled, missing]
  exact Yields.bind (Yields.note _) (Yields.bind_error (Yields.perform fails))

/-- A tree that is built is a new object, and is kept. -/
theorem yields_treeOf_built {tree : Rule} (missing : r.trees.get? s.handle = none)
    (built : (build s.value).outcome = .ok tree) :
    Yields (treeOf (some s) build) r (.ok ⟨r.nextId, tree⟩)
      { r.enrolled s with
        trees := r.trees.put s.handle ⟨r.nextId, tree⟩, nextId := r.nextId + 1 } := by
  refine Yields.bind (yields_enrolled s r) (Yields.bind Yields.registry ?_)
  rw [Registry.trees_enrolled, missing]
  refine Yields.bind (Yields.note _) (Yields.bind (Yields.perform built)
    (Yields.bind (Yields.store tree) ?_))
  rw [Registry.nextId_enrolled, ← Registry.trees_enrolled r s]
  exact Yields.bind (Yields.change _) (Yields.pure _)

end Tree

/-- Asking for a bucket furnishes the schema and answers its bucket. -/
theorem yields_bucketOf_some (s : Subject) (r : Registry) :
    Yields (bucketOf (some s)) r (.ok ((r.buckets.get? s.handle).getD {})) (r.furnished s) := by
  refine Yields.bind (yields_enrolled s r) (Yields.bind Yields.registry ?_)
  unfold Registry.furnished
  cases kept : r.buckets.get? s.handle with
  | some b =>
    rw [if_pos (Table.contains_iff.2 ⟨b, kept⟩), ← Registry.buckets_enrolled r s]
    rw [← Registry.buckets_enrolled r s] at kept
    rw [kept]
    exact Yields.pure b
  | none =>
    rw [if_neg (by simp [Table.contains, kept]), ← Registry.buckets_enrolled r s]
    rw [← Registry.buckets_enrolled r s] at kept
    rw [kept]
    exact Yields.bind (Yields.change _) (Yields.pure _)

end RegistryM

end ShapeContract
