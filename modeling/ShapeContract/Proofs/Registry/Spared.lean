import ShapeContract.Proofs.Overrides.Spared
import ShapeContract.Proofs.Registry.Stages

/-!
# Kept trees that stay as they are

The tree that is kept for a schema is the base tree of all its requests. Overrides that spare it leave
it as it was, and so do requests for other schemas; it is answered unchanged as long as it is kept:
`Registry.spared`.
-/

set_option autoImplicit false

namespace ShapeContract

/-- What is asked for the schema has overrides that spare its tree. -/
def Use.Spares (s : Subject) (base : Rule) : Use → Prop
  | .emit c | .build c => SamePlace c.schema (some s) →
    ∀ o, Overrides.ofValue c.overrides = .ok o → o.Spares base
  | _ => True

namespace RegistryM

variable {α β : Type} {handle : Nat} {tree : Stored Rule}

/-- A computation leaves the tree that is kept under a handle. -/
def Steady (handle : Nat) (tree : Stored Rule) (x : RegistryM α) : Prop :=
  ∀ d, d.registry.trees.get? handle = some tree → (x.run d).2.registry.trees.get? handle = some tree

namespace Steady

/-- Two steady steps in sequence are steady. -/
theorem bind {x : RegistryM α} {f : α → RegistryM β} (first : Steady handle tree x)
    (second : ∀ a, Steady handle tree (f a)) : Steady handle tree (x >>= f) := by
  intro d kept
  have after := first d kept
  rw [ExceptT.run_bind]
  simp only [Bind.bind, StateT.bind]
  generalize x.run d = out at after ⊢
  obtain ⟨answer, d'⟩ := out
  cases answer with
  | error e => exact after
  | ok a => exact second a d' after

theorem pure (a : α) : Steady handle tree (Pure.pure a : RegistryM α) := fun _ kept => kept

/-- A failure leaves the kept tree where it is. -/
theorem lift (x : Except Failure α) : Steady handle tree (liftM x : RegistryM α) := by
  cases x <;> exact fun _ kept => kept

theorem registry : Steady handle tree RegistryM.registry := fun _ kept => kept

theorem note (record : JournalRecord) : Steady handle tree (RegistryM.note record) :=
  fun _ kept => kept

/-- A change that leaves the tree. -/
theorem change {f : Registry → Registry} (leaves : ∀ r : Registry,
    r.trees.get? handle = some tree → (f r).trees.get? handle = some tree) :
    Steady handle tree (RegistryM.change f) :=
  fun d kept => leaves d.registry kept

theorem store (a : α) : Steady handle tree (RegistryM.store a) :=
  bind registry fun _ => bind (change fun _ kept => kept) fun _ => pure _

theorem perform (x : Traced α) : Steady handle tree (RegistryM.perform x) := by
  intro d kept
  unfold RegistryM.perform
  obtain ⟨outcome, records⟩ := x
  cases outcome <;> exact kept

/-- It is enough that the tree is still kept wherever the code ends. -/
theorem of_yields {x : RegistryM α} (yields : ∀ r : Registry, r.trees.get? handle = some tree →
    ∃ answer r', Yields x r answer r' ∧ r'.trees.get? handle = some tree) :
    Steady handle tree x := by
  rintro ⟨r, journal⟩ kept
  obtain ⟨answer, r', run, kept'⟩ := yields r kept
  obtain ⟨journal', runs⟩ := run journal
  rw [runs]
  exact kept'

/-- A tree that is put for another schema. -/
theorem put {s : Subject} (other : handle ≠ s.handle) (t : Registry → Stored Rule) :
    Steady handle tree (RegistryM.change fun r => { r with trees := r.trees.put s.handle (t r) }) :=
  .change fun r kept => (Table.get?_put_of_ne r.trees (t r) other).trans kept

end Steady

/-! ## The stages -/

/-- Registering a schema touches no tree … -/
theorem steady_register (s : Subject) : Steady handle tree (register s) := by
  refine .bind .registry fun r => ?_
  split
  · exact .pure _
  · split
    · exact .change fun _ kept => kept
    · exact .bind (.change fun _ kept => kept) fun _ => .note _

/-- … and a lookup only adds one where none is kept. -/
theorem steady_treeOf (schema : Option Subject) (build : Value → Traced Rule) :
    Steady handle tree (treeOf schema build) := by
  cases schema with
  | none => exact .store _
  | some s =>
    by_cases here : handle = s.handle
    · subst here
      refine .of_yields fun r kept => ⟨_, _, yields_treeOf_kept kept, ?_⟩
      rw [Registry.trees_enrolled, kept]
    · refine .bind (steady_register s) fun _ => .bind .registry fun r => ?_
      split
      · exact .bind (.note _) fun _ => .pure _
      · exact .bind (.note _) fun _ => .bind (.perform _) fun built => .bind (.store built) fun t =>
          .bind (.put here fun _ => t) fun _ => .pure _

/-- Compiling a tree leaves every kept tree as it is. -/
theorem steady_compileTree (env : Environment) (schema : Option Subject) :
    Steady handle tree (compileTree env schema) :=
  .bind (.lift _) fun _ => steady_treeOf schema _

theorem steady_bucketOf (schema : Option Subject) : Steady handle tree (bucketOf schema) := by
  cases schema with
  | none => exact .bind .registry fun _ => .pure _
  | some s =>
    refine .bind (steady_register s) fun _ => .bind .registry fun r => ?_
    split
    · exact .pure _
    · exact .bind (.change fun _ kept => kept) fun _ => .pure _

/-- Buckets hold documents and validators, no trees. -/
theorem steady_changeBucket (schema : Option Subject) (f : Bucket → Bucket) :
    Steady handle tree (changeBucket schema f) := by
  refine .change fun r kept => ?_
  cases schema <;> exact kept

section Spared

variable {s : Subject} {o : Overrides} {schema : Option Subject}

/-- Overrides that spare the tree put it back as it was. -/
theorem steady_document (spares : SamePlace schema (some s) → o.Spares tree.value)
    (env : Environment) (allowUnknown : Bool) :
    Steady s.handle tree (document env schema o allowUnknown) := by
  cases schema with
  | none => exact .lift _
  | some t =>
    by_cases here : t.handle = s.handle
    · refine .of_yields fun r kept => ?_
      have unchanged := (spares (congrArg some here)).applyShared_eq
      rw [← here] at kept ⊢
      cases settings : env.bound with
      | error e =>
        exact ⟨_, r, Yields.bind_error (Yields.bind_error (Yields.lift settings)), kept⟩
      | ok bound =>
        have compiles : Yields (compileTree env (some t)) r (.ok tree) (r.enrolled t) :=
          Yields.bind (Yields.lift settings) (yields_treeOf_kept kept)
        cases applied : o.apply tree.value with
        | error e =>
          refine ⟨_, _, Yields.bind compiles (Yields.bind_error (Yields.lift applied)), ?_⟩
          rw [Registry.trees_enrolled, kept]
        | ok effective =>
          refine ⟨_, _, Yields.bind compiles (Yields.bind (Yields.lift applied)
            (Yields.bind (Yields.change _) (Yields.pure _))), ?_⟩
          dsimp only
          rw [unchanged, Table.get?_put_self]
    · exact .bind (steady_compileTree env _) fun t => .bind (.lift _) fun _ =>
        .bind (.put (Ne.symm here) fun _ => _) fun _ => .pure _

/-- Emitting spares the kept tree when the overrides do, or when the request is about another
schema. -/
theorem steady_emit (spares : SamePlace schema (some s) → o.Spares tree.value) (env : Environment)
    (opts : ValidatorOptions) : Steady s.handle tree (emit env schema o opts) := by
  refine .bind (.lift _) fun key => .bind (steady_bucketOf _) fun bucket => ?_
  split
  · exact .bind (.note _) fun _ => .pure _
  · exact .bind (.note _) fun _ => .bind (steady_document spares env _) fun document =>
      .bind (.store document) fun _ => .bind (steady_changeBucket _ _) fun _ => .pure _

/-- The same for building a validator. -/
theorem steady_build [CharacterNames] (spares : SamePlace schema (some s) → o.Spares tree.value)
    (env : Environment)
    (opts : ValidatorOptions) : Steady s.handle tree (build env schema o opts) := by
  refine .bind (.lift _) fun key => .bind (steady_bucketOf _) fun bucket => ?_
  split
  · exact .bind (.note _) fun _ => .pure _
  · exact .bind (.note _) fun _ => .bind (steady_emit spares env opts) fun wire =>
      .bind (.perform _) fun validator => .bind (.store validator) fun _ =>
        .bind (steady_changeBucket _ _) fun _ => .pure _

end Spared

/-- Overrides are read before the registry is used; what cannot be read changes nothing. -/
theorem Steady.bind_ofValue {v : Value} {f : Overrides → RegistryM α}
    (rest : ∀ o, Overrides.ofValue v = .ok o → Steady handle tree (f o)) :
    Steady handle tree (liftM (Overrides.ofValue v) >>= f) := by
  cases read : Overrides.ofValue v with
  | error e => exact fun _ kept => kept
  | ok o => exact rest o read

/-- Each call of a run spares a tree that it neither drops nor writes into. -/
theorem steady_perform [CharacterNames] {s : Subject} {use : Use} (env : Environment)
    (stays : ¬use.Drops (some s)) (spares : use.Spares s tree.value) :
    Steady s.handle tree (use.perform env) := by
  cases use with
  | compile schema => exact .bind (steady_compileTree env schema) fun _ => .pure _
  | emit c =>
    exact .bind (.bind_ofValue fun o read => .bind (.lift _) fun opts =>
      steady_emit (fun here => spares here o read) env opts) fun _ => .pure _
  | build c =>
    exact .bind (.bind_ofValue fun o read => .bind (.lift _) fun opts =>
      steady_build (fun here => spares here o read) env opts) fun _ => .pure _
  | evict evicted =>
    refine .change fun r kept => ?_
    cases evicted with
    | none => exact kept
    | some t =>
      have other : s.handle ≠ t.handle := fun same => stays (congrArg some same.symm)
      exact (Table.get?_erase_of_ne r.trees other).trans kept
  | clear => exact absurd trivial stays

end RegistryM

namespace Registry

open RegistryM

/-- **A kept tree stays as it is** in calls that do not drop it and whose overrides spare it. -/
theorem trees_run_spared [CharacterNames] {s : Subject} (tree : Stored Rule) (calls : List Call) :
    ∀ {r : Registry}, r.trees.get? s.handle = some tree →
      (∀ call ∈ calls, ¬call.use.Drops (some s) ∧ call.use.Spares s tree.value) →
        (calls.foldl step r).trees.get? s.handle = some tree := by
  induction calls with
  | nil => exact fun kept _ => kept
  | cons call rest ih =>
    intro r kept allowed
    obtain ⟨stays, spares⟩ := allowed call List.mem_cons_self
    have once : (r.step call).trees.get? s.handle = some tree :=
      steady_perform call.env stays spares ⟨r, []⟩ kept
    exact ih once fun later inside => allowed later (List.mem_cons_of_mem _ inside)

/-- **Overrides spare the base tree**, node by node, unless a path that is attached leads past a child
of a leaf that stays; and the tree that is kept for a schema is answered as it was after any calls
whose overrides spare it. Appended definitions bring nodes of their own, a rule inside a mapping too:
where a caller puts a node of the kept tree there, this says nothing (see `Overrides.owned`). -/
theorem spared [CharacterNames] (base : Rule) :
    (∀ o : Overrides, o.Spares base ↔ ∀ adapted, o.apply base = .ok adapted → ¬o.Disturbs base) ∧
    ∀ (r : Registry) (s : Subject) (id : Nat), r.trees.get? s.handle = some ⟨id, base⟩ →
      ∀ calls : List Call, (∀ call ∈ calls, ¬call.use.Drops (some s) ∧ call.use.Spares s base) →
        ∀ env, (calls.foldl step r).answer (compileTree env (some s)) =
          r.answer (compileTree env (some s)) := by
  refine ⟨fun o => o.spares_or_disturbs base, fun r s id kept calls allowed env => ?_⟩
  have kept' := trees_run_spared ⟨id, base⟩ calls kept allowed
  cases settings : env.bound with
  | error e =>
    have fails (r : Registry) : r.answer (compileTree env (some s)) = .error e :=
      (Yields.bind_error (Yields.lift settings)).answer_eq
    rw [fails, fails]
  | ok bound => rw [answer_compileTree_kept settings kept, answer_compileTree_kept settings kept']

/-- A tree whose leaves have no children. -/
def addressTree : Rule :=
  ⟨Rule.empty.facets, none, some [("address", ⟨Rule.empty.facets, none,
    some [("street", Rule.bare .string)]⟩), ("age", Rule.bare .number)]⟩

/-- An endpoint that leaves one path out and appends another. -/
def addressCall (s : Subject) : Call :=
  ⟨⟨{}, .ok 8⟩, .emit ⟨some s, .object [("exclude", .list [.str "age"]),
    ("append", .object [("address.city", .object [])])], .null⟩⟩

section

attribute [local instance] CharacterNames.common

theorem spared_addressTree :
    let s : Subject := ⟨7, true, .source ⟨0, "DocumentSchema", "User"⟩⟩
    let r : Registry := { trees := [(7, ⟨0, addressTree⟩)], watched := [7], nextId := 1 }
    r.trees.get? s.handle = some ⟨0, addressTree⟩ ∧
      (∀ call ∈ [addressCall s], ¬call.use.Drops (some s) ∧ call.use.Spares s addressTree) ∧
        ([addressCall s].foldl step r).answer (compileTree ⟨{}, .ok 8⟩ (some s)) =
          r.answer (compileTree ⟨{}, .ok 8⟩ (some s)) := by
  intro s r
  have allowed : ∀ call ∈ [addressCall s],
      ¬call.use.Drops (some s) ∧ call.use.Spares s addressTree := by
    intro call inside
    obtain rfl := List.mem_singleton.1 inside
    exact ⟨id, fun _ o _ => Overrides.spares_of_childless (by decide +kernel) o⟩
  exact ⟨rfl, allowed, (spared addressTree).2 r s 0 rfl _ allowed _⟩

end

end Registry

end ShapeContract
