import ShapeContract.Proofs.Registry.Kept

/-!
# What requests add to a registry

Every stage looks for what is kept, makes it if there is nothing, and keeps it from then on. What has
been kept stays: `Registry.Grows`. A document is kept only where a tree is, and a validator only
beside the document that it is compiled from.
-/

set_option autoImplicit false

namespace ShapeContract

namespace Registry

/-- What a computation answers. -/
def answer {α : Type} (r : Registry) (x : RegistryM α) : Except Failure α := (x.run ⟨r, []⟩).1

def HasTree (r : Registry) (schema : Option Subject) : Prop :=
  ∀ s, schema = some s → r.trees.contains s.handle = true

/-- What is kept for a schema stays, and each kept object is the same. -/
structure Keeps (schema : Option Subject) (r r' : Registry) : Prop where
  tree : ∀ s, schema = some s → ∀ tree, r.trees.get? s.handle = some tree →
    ∃ tree', r'.trees.get? s.handle = some tree' ∧ tree'.id = tree.id
  wire : ∀ key wire, (r.bucketAt schema).wires.get? key = some wire →
    (r'.bucketAt schema).wires.get? key = some wire
  validator : ∀ key validator, (r.bucketAt schema).validators.get? key = some validator →
    (r'.bucketAt schema).validators.get? key = some validator

/-- Everything stays. -/
structure Grows (r r' : Registry) : Prop where
  nextId : r.nextId ≤ r'.nextId
  keeps : ∀ schema, Keeps schema r r'

variable {r r' r'' : Registry} {schema : Option Subject}

theorem Keeps.refl (schema : Option Subject) (r : Registry) : Keeps schema r r :=
  ⟨fun _ _ tree kept => ⟨tree, kept, rfl⟩, fun _ _ kept => kept, fun _ _ kept => kept⟩

theorem Keeps.trans (first : Keeps schema r r') (second : Keeps schema r' r'') :
    Keeps schema r r'' := by
  refine ⟨?_, fun key wire kept => second.wire key wire (first.wire key wire kept),
    fun key validator kept => second.validator key validator (first.validator key validator kept)⟩
  intro s here tree kept
  obtain ⟨tree', kept', same'⟩ := first.tree s here tree kept
  obtain ⟨tree'', kept'', same''⟩ := second.tree s here tree' kept'
  exact ⟨tree'', kept'', same''.trans same'⟩

theorem Keeps.hasTree (keeps : Keeps schema r r') (has : r.HasTree schema) : r'.HasTree schema := by
  intro s here
  obtain ⟨tree, kept⟩ := Table.contains_iff.1 (has s here)
  obtain ⟨tree', kept', _⟩ := keeps.tree s here tree kept
  exact Table.contains_iff.2 ⟨tree', kept'⟩

theorem Grows.refl (r : Registry) : Grows r r := ⟨Nat.le_refl _, fun schema => .refl schema r⟩

theorem Grows.trans (first : Grows r r') (second : Grows r' r'') : Grows r r'' :=
  ⟨Nat.le_trans first.nextId second.nextId,
    fun schema => (first.keeps schema).trans (second.keeps schema)⟩

/-- Nothing has changed but what else is known of handles. -/
theorem Grows.of_same (trees : r'.trees = r.trees) (buckets : r'.bucketAt = r.bucketAt)
    (nextId : r.nextId ≤ r'.nextId) : Grows r r' := by
  refine ⟨nextId, fun schema => ⟨fun s _ tree kept => ⟨tree, trees ▸ kept, rfl⟩, ?_, ?_⟩⟩ <;>
    · rw [buckets]
      exact fun _ _ kept => kept

/-- A tree has been put where there was none, or where the same one was. -/
theorem Grows.putTree {s : Subject} {tree : Stored Rule} {nextId : Nat} (later : r.nextId ≤ nextId)
    (same : ∀ old, r.trees.get? s.handle = some old → tree.id = old.id)
    (trees : r'.trees = r.trees.put s.handle tree) (buckets : r'.bucketAt = r.bucketAt)
    (next : r'.nextId = nextId) : Grows r r' := by
  refine ⟨next ▸ later, fun schema => ⟨?_, ?_, ?_⟩⟩
  · intro t _ old kept
    rw [trees]
    by_cases here : t.handle = s.handle
    · rw [here] at kept ⊢
      exact ⟨tree, Table.get?_put_self .., same old kept⟩
    · exact ⟨old, (Table.get?_put_of_ne _ _ here).trans kept, rfl⟩
  · rw [buckets]
    exact fun _ _ kept => kept
  · rw [buckets]
    exact fun _ _ kept => kept

/-- The bucket of a schema has been filled further. -/
theorem Grows.rebucketed {f : Bucket → Bucket}
    (wires : ∀ key wire, (r.bucketAt schema).wires.get? key = some wire →
      (f (r.bucketAt schema)).wires.get? key = some wire)
    (validators : ∀ key validator, (r.bucketAt schema).validators.get? key = some validator →
      (f (r.bucketAt schema)).validators.get? key = some validator) :
    Grows r (r.rebucketed schema f) := by
  refine ⟨Nat.le_of_eq (nextId_rebucketed r schema f).symm, fun t => ⟨?_, ?_, ?_⟩⟩
  · intro s _ tree kept
    exact ⟨tree, (trees_rebucketed r schema f).symm ▸ kept, rfl⟩
  all_goals
    intro key entry kept
    rw [bucketAt_rebucketed]
    split
    next same =>
      rw [bucketAt_of_samePlace same] at kept ⊢
      first | exact wires key entry kept | exact validators key entry kept
    next => exact kept

theorem HasTree.of_samePlace {s t : Option Subject} (same : SamePlace s t) (has : r.HasTree s) :
    r.HasTree t := by
  rintro t rfl
  cases s with
  | none => cases same
  | some s => exact Option.some.inj same ▸ has s rfl

theorem nextId_readied (schema : Option Subject) (r : Registry) :
    (r.readied schema).nextId = r.nextId := by
  cases schema with
  | none => rfl
  | some s => exact Registry.nextId_enrolled r s

theorem grows_readied (schema : Option Subject) (r : Registry) : Grows r (r.readied schema) :=
  .of_same (RegistryM.trees_readied schema r) (RegistryM.bucketAt_readied schema r)
    (Nat.le_of_eq (nextId_readied schema r).symm)

theorem readied_readied (schema : Option Subject) (r : Registry) :
    (r.readied schema).readied schema = r.readied schema := by
  cases schema with
  | none => rfl
  | some s =>
    have known : (r.furnished s).registered s.handle = true := Registry.registered_enrolled r s
    have bucket := Registry.contains_furnished r s
    show (r.furnished s).furnished s = r.furnished s
    rw [Registry.furnished, Registry.enrolled, if_pos known, if_pos bucket]

end Registry

namespace RegistryM

open Registry

variable {env : Environment} {r r' : Registry} {o : Overrides} {opts : ValidatorOptions}
  {key : String} {schema : Option Subject}

theorem Yields.answer_eq {α : Type} {x : RegistryM α} {answer : Except Failure α}
    (yields : Yields x r answer r') : r.answer x = answer := by
  obtain ⟨journal, run⟩ := yields []
  rw [Registry.answer, run]

/-! ## Trees -/

theorem answer_compileTree_kept {s : Subject} {tree : Stored Rule} {bound : Int}
    (settings : env.bound = .ok bound) (kept : r.trees.get? s.handle = some tree) :
    r.answer (compileTree env (some s)) = .ok tree :=
  (Yields.bind (Yields.lift settings) (yields_treeOf_kept kept)).answer_eq

/-- A tree that is answered is kept from then on, and nothing that was kept goes. -/
theorem compileTree_grows (env : Environment) (s : Subject) (r : Registry) :
    ∃ answer r', Yields (compileTree env (some s)) r answer r' ∧ r'.bucketAt = r.bucketAt ∧
      Grows r r' ∧ ∀ tree, answer = .ok tree → r'.trees.get? s.handle = some tree := by
  have buckets : (r.enrolled s).bucketAt = r.bucketAt :=
    bucketAt_congr (Registry.buckets_enrolled r s) (Registry.unbound_enrolled r s)
  have trees := Registry.trees_enrolled r s
  have grows : Grows r (r.enrolled s) :=
    .of_same trees buckets (Nat.le_of_eq (Registry.nextId_enrolled r s).symm)
  cases settings : env.bound with
  | error e =>
    exact ⟨.error e, r, Yields.bind_error (Yields.lift settings), rfl, .refl r, fun _ => nofun⟩
  | ok bound =>
    have after {answer : Except Failure (Stored Rule)} {r' : Registry}
        (yields : Yields (treeOf (some s) (introspect env.catalog bound)) r answer r') :
        Yields (compileTree env (some s)) r answer r' := Yields.bind (Yields.lift settings) yields
    cases kept : r.trees.get? s.handle with
    | some tree =>
      refine ⟨.ok tree, _, after (yields_treeOf_kept kept), buckets, grows, ?_⟩
      rintro _ ⟨⟩
      rw [trees, kept]
    | none =>
      cases outcome : (introspect env.catalog bound s.value).outcome with
      | error e =>
        exact ⟨.error e, _, after (yields_treeOf_failed kept outcome), buckets, grows,
          fun _ => nofun⟩
      | ok tree =>
        refine ⟨.ok ⟨r.nextId, tree⟩, _, after (yields_treeOf_built kept outcome), buckets,
          .putTree (Nat.le_succ _) ?_ rfl buckets rfl, ?_⟩
        · exact fun old found => absurd (kept.symm.trans found) nofun
        · rintro _ ⟨⟩
          exact Table.get?_put_self ..

/-- A document of a schema is made from a tree, which is kept. -/
theorem document_grows (env : Environment) (schema : Option Subject) (o : Overrides)
    (allowUnknown : Bool) (r : Registry) :
    ∃ answer r', Yields (document env schema o allowUnknown) r answer r' ∧
      r'.bucketAt = r.bucketAt ∧ Grows r r' ∧ ∀ wire, answer = .ok wire → r'.HasTree schema := by
  cases schema with
  | none => exact ⟨_, r, Yields.lift rfl, rfl, .refl r, fun _ _ _ => nofun⟩
  | some s =>
    obtain ⟨answer, r₁, compiles, buckets, grows, keeps⟩ := compileTree_grows env s r
    cases answer with
    | error e => exact ⟨.error e, r₁, Yields.bind_error compiles, buckets, grows, fun _ => nofun⟩
    | ok tree =>
      have kept := keeps tree rfl
      cases applied : o.apply tree.value with
      | error e =>
        exact ⟨.error e, r₁, Yields.bind compiles (Yields.bind_error (Yields.lift applied)),
          buckets, grows, fun _ => nofun⟩
      | ok effective =>
        refine ⟨.ok (Wire.ofTree allowUnknown effective), _, Yields.bind compiles
          (Yields.bind (Yields.lift applied) (Yields.bind (Yields.change _) (Yields.pure _))),
          buckets, grows.trans (.putTree (Nat.le_refl _) ?_ rfl rfl rfl), ?_⟩
        · intro old found
          rw [kept] at found
          cases found
          rfl
        · rintro _ _ _ ⟨⟩
          exact Table.contains_put_self ..

/-! ## Documents -/

/-- What a request for a document does with what is kept. -/
structure Emits (schema : Option Subject) (key : String) (r : Registry)
    (answer : Except Failure (Stored Value)) (r' : Registry) : Prop where
  grows : Grows r r'
  validators : ∀ t, (r'.bucketAt t).validators = (r.bucketAt t).validators
  wires : ∀ t k wire, (r'.bucketAt t).wires.get? k = some wire →
    (r.bucketAt t).wires.get? k = some wire ∨ r'.HasTree t
  kept : ∀ wire, answer = .ok wire → (r'.bucketAt schema).wires.get? key = some wire
  hit : ∀ wire, (r.bucketAt schema).wires.get? key = some wire → answer = .ok wire

/-- A registry in which only trees and identities have grown. -/
theorem Emits.of_grows (grows : Grows r r') (buckets : r'.bucketAt = r.bucketAt) {e : Failure}
    (missing : (r.bucketAt schema).wires.get? key = none) : Emits schema key r (.error e) r' := by
  refine ⟨grows, fun t => by rw [buckets], fun t k wire kept => Or.inl (buckets ▸ kept),
    fun _ => nofun, fun wire found => ?_⟩
  rw [missing] at found
  cases found

/-- What stands under other keys stays when something is put where nothing was. -/
theorem get?_put_of_missing {α : Type} {fs : Fields α} {k : String} {x y : α}
    (missing : fs.get? key = none) (found : fs.get? k = some x) :
    (fs.put key y).get? k = some x := by
  have other : k ≠ key := by
    rintro rfl
    rw [missing] at found
    cases found
  rw [Fields.get?_put_of_ne _ _ other, found]

/-- A new document stands in the bucket of its schema. -/
theorem Emits.of_put {r₁ : Registry} (grows : Grows r r₁) (buckets : r₁.bucketAt = r.bucketAt)
    (missing : (r.bucketAt schema).wires.get? key = none) (has : r₁.HasTree schema)
    (wire : Stored Value) :
    Emits schema key r (.ok wire)
      (Registry.rebucketed { r₁ with nextId := r₁.nextId + 1 } schema
        fun b => { b with wires := b.wires.put key wire }) := by
  have counted : Grows r₁ { r₁ with nextId := r₁.nextId + 1 } :=
    .of_same rfl rfl (Nat.le_succ _)
  have buckets' : Registry.bucketAt { r₁ with nextId := r₁.nextId + 1 } = r.bucketAt := buckets
  refine ⟨(grows.trans counted).trans (.rebucketed ?_ fun _ _ kept => kept), ?_, ?_, ?_, ?_⟩
  · rw [buckets']
    exact fun _ _ found => get?_put_of_missing missing found
  · intro t
    rw [bucketAt_rebucketed, buckets']
    split <;> rfl
  · intro t k found kept
    rw [bucketAt_rebucketed, buckets'] at kept
    split at kept
    next same =>
      refine Or.inr (HasTree.of_samePlace same.symm fun s here => ?_)
      rw [trees_rebucketed]
      exact has s here
    next => exact Or.inl kept
  · rintro _ ⟨⟩
    rw [bucketAt_rebucketed, if_pos rfl]
    exact Fields.get?_put_self ..
  · intro found kept
    rw [missing] at kept
    cases kept

/-- **A request for a document**, also from a registry in which the bucket has just been made. -/
theorem emits (env : Environment) (schema : Option Subject) (hasKey : o.key opts = .ok key)
    (r : Registry) :
    ∃ answer r', (∀ r₀ : Registry, r₀.readied schema = r.readied schema →
      Yields (emit env schema o opts) r₀ answer r') ∧ Emits schema key r answer r' := by
  -- The same bucket is found and nothing else has changed, whichever registry it starts from.
  have bucket {r₀ : Registry} (same : r₀.readied schema = r.readied schema) :
      Yields (bucketOf schema) r₀ (.ok (r.bucketAt schema)) (r.readied schema) := by
    have yields := yields_readied schema r₀
    rwa [same, ← bucketAt_readied schema r₀, same, bucketAt_readied] at yields
  have ready := grows_readied schema r
  have buckets := bucketAt_readied schema r
  cases found : (r.bucketAt schema).wires.get? key with
  | some wire =>
    refine ⟨.ok wire, r.readied schema, fun r₀ same => ?_, ready, ?_, ?_, ?_, ?_⟩
    · refine Yields.bind (Yields.lift hasKey) (Yields.bind (bucket same) ?_)
      rw [found]
      exact Yields.bind (Yields.note _) (Yields.pure wire)
    · exact fun t => by rw [buckets]
    · exact fun t k _ kept => Or.inl (buckets ▸ kept)
    · rintro _ ⟨⟩
      rw [buckets, found]
    · rintro _ kept
      rw [found] at kept
      exact congrArg Except.ok (Option.some.inj kept)
  | none =>
    obtain ⟨answer, r₁, documents, buckets₁, grows, has⟩ :=
      document_grows env schema o opts.allowUnknown (r.readied schema)
    have grown := ready.trans grows
    have same₁ := buckets₁.trans buckets
    cases answer with
    | error e =>
      refine ⟨.error e, r₁, fun r₀ same => ?_, .of_grows grown same₁ found⟩
      refine Yields.bind (Yields.lift hasKey) (Yields.bind (bucket same) ?_)
      rw [found]
      exact Yields.bind (Yields.note _) (Yields.bind_error documents)
    | ok document =>
      refine ⟨.ok ⟨r₁.nextId, document⟩, _, fun r₀ same => ?_,
        .of_put grown same₁ found (has document rfl) _⟩
      refine Yields.bind (Yields.lift hasKey) (Yields.bind (bucket same) ?_)
      rw [found]
      exact Yields.bind (Yields.note _) (Yields.bind documents (Yields.bind (Yields.store document)
        (Yields.bind (Yields.change _) (Yields.pure _))))

/-! ## Validators -/

/-- What a request for a validator does with what is kept. -/
structure Builds [CharacterNames] (env : Environment) (schema : Option Subject) (o : Overrides)
    (opts : ValidatorOptions) (key : String) (r : Registry)
    (answer : Except Failure (Stored Wire.Validator)) (r' : Registry) : Prop where
  grows : Grows r r'
  wires : ∀ t k wire, (r'.bucketAt t).wires.get? k = some wire →
    (r.bucketAt t).wires.get? k = some wire ∨ r'.HasTree t
  validators : ∀ t k validator, (r'.bucketAt t).validators.get? k = some validator →
    (r.bucketAt t).validators.get? k = some validator ∨
      SamePlace t schema ∧ k = key ∧ answer = .ok validator ∧
        ∃ wire, r.answer (emit env schema o opts) = .ok wire ∧
          (r'.bucketAt t).wires.get? k = some wire ∧
          (Wire.compile opts.handling wire.value).outcome = .ok validator.value
  kept : ∀ validator, answer = .ok validator →
    (r'.bucketAt schema).validators.get? key = some validator
  hit : ∀ validator, (r.bucketAt schema).validators.get? key = some validator →
    answer = .ok validator

/-- A request for a validator that has only asked for the document. -/
theorem Builds.of_emits [CharacterNames] {emitted : Except Failure (Stored Value)}
    (emits : Emits schema key r emitted r')
    (missing : (r.bucketAt schema).validators.get? key = none) (e : Failure) :
    Builds env schema o opts key r (.error e) r' := by
  refine ⟨emits.grows, emits.wires, ?_, fun _ => nofun, fun _ found => ?_⟩
  · exact fun t k _ kept => Or.inl (emits.validators t ▸ kept)
  · rw [missing] at found
    cases found

/-- A new validator stands in the bucket of its schema, beside the document it is compiled from. -/
theorem Builds.of_put [CharacterNames] {wire : Stored Value}
    (emits : Emits schema key r (.ok wire) r')
    (missing : (r.bucketAt schema).validators.get? key = none)
    (answered : r.answer (emit env schema o opts) = .ok wire) {validator : Stored Wire.Validator}
    (compiled : (Wire.compile opts.handling wire.value).outcome = .ok validator.value) :
    Builds env schema o opts key r (.ok validator)
      (Registry.rebucketed { r' with nextId := r'.nextId + 1 } schema
        fun b => { b with validators := b.validators.put key validator }) := by
  have counted : Grows r' { r' with nextId := r'.nextId + 1 } := .of_same rfl rfl (Nat.le_succ _)
  have buckets : Registry.bucketAt { r' with nextId := r'.nextId + 1 } = r'.bucketAt := rfl
  have wires (t : Option Subject) : ((Registry.rebucketed { r' with nextId := r'.nextId + 1 } schema
      fun b => { b with validators := b.validators.put key validator }).bucketAt t).wires =
        (r'.bucketAt t).wires := by
    rw [bucketAt_rebucketed, buckets]
    split <;> rfl
  refine ⟨(emits.grows.trans counted).trans (.rebucketed (fun _ _ kept => kept) ?_), ?_, ?_, ?_, ?_⟩
  · rw [buckets, emits.validators]
    exact fun _ _ found => get?_put_of_missing missing found
  · intro t k found kept
    rw [wires] at kept
    refine (emits.wires t k found kept).imp id fun has s here => ?_
    rw [trees_rebucketed]
    exact has s here
  · intro t k found kept
    rw [bucketAt_rebucketed, buckets] at kept
    split at kept
    next same =>
      by_cases here : k = key
      · subst here
        rw [Fields.get?_put_self] at kept
        cases kept
        refine Or.inr ⟨same, rfl, rfl, wire, answered, ?_, compiled⟩
        rw [wires, bucketAt_of_samePlace same]
        exact emits.kept wire rfl
      · rw [Fields.get?_put_of_ne _ _ here, emits.validators] at kept
        exact Or.inl kept
    next =>
      rw [emits.validators] at kept
      exact Or.inl kept
  · rintro _ ⟨⟩
    rw [bucketAt_rebucketed, if_pos rfl]
    exact Fields.get?_put_self ..
  · intro found kept
    rw [missing] at kept
    cases kept

/-- **A request for a validator.** -/
theorem builds [CharacterNames] (env : Environment) (schema : Option Subject)
    (hasKey : o.key opts = .ok key)
    (r : Registry) :
    ∃ answer r', Yields (build env schema o opts) r answer r' ∧
      Builds env schema o opts key r answer r' := by
  have bucket := yields_readied schema r
  have ready := grows_readied schema r
  have buckets := bucketAt_readied schema r
  cases found : (r.bucketAt schema).validators.get? key with
  | some validator =>
    refine ⟨.ok validator, r.readied schema, Yields.bind (Yields.lift hasKey)
      (Yields.bind bucket ?_), ready, ?_, ?_, ?_, ?_⟩
    · rw [found]
      exact Yields.bind (Yields.note _) (Yields.pure validator)
    · exact fun t k _ kept => Or.inl (buckets ▸ kept)
    · exact fun t k _ kept => Or.inl (buckets ▸ kept)
    · rintro _ ⟨⟩
      rw [buckets, found]
    · rintro _ kept
      rw [found] at kept
      exact congrArg Except.ok (Option.some.inj kept)
  | none =>
    obtain ⟨emitted, r₁, always, emits⟩ := emits env schema hasKey r
    have inner := always (r.readied schema) (readied_readied schema r)
    have outer := (always r rfl).answer_eq
    cases emitted with
    | error e =>
      refine ⟨.error e, r₁, Yields.bind (Yields.lift hasKey) (Yields.bind bucket ?_),
        .of_emits emits found e⟩
      rw [found]
      exact Yields.bind (Yields.note _) (Yields.bind_error inner)
    | ok wire =>
      cases compiled : (Wire.compile opts.handling wire.value).outcome with
      | error e =>
        refine ⟨.error e, r₁, Yields.bind (Yields.lift hasKey) (Yields.bind bucket ?_),
          .of_emits emits found e⟩
        rw [found]
        exact Yields.bind (Yields.note _) (Yields.bind inner (Yields.bind_error
          (Yields.perform compiled)))
      | ok validator =>
        refine ⟨.ok ⟨r₁.nextId, validator⟩, _, Yields.bind (Yields.lift hasKey)
          (Yields.bind bucket ?_), .of_put emits found outer compiled⟩
        rw [found]
        exact Yields.bind (Yields.note _) (Yields.bind inner (Yields.bind (Yields.perform compiled)
          (Yields.bind (Yields.store validator) (Yields.bind (Yields.change _) (Yields.pure _)))))

end RegistryM

end ShapeContract
