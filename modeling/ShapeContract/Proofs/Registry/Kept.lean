import ShapeContract.Proofs.Overrides.Sharing
import ShapeContract.Proofs.Registry.Lookups
import ShapeContract.Proofs.Value.Framed

/-!
# What a registry keeps is what a fresh one would make

Every kept tree looks like the tree of its schema, and every kept document or validator is what some
request with the same schema and the same key derives: `Registry.Sound`. Each request keeps this, and
is answered with what is kept or with what it derives itself.
-/

set_option autoImplicit false

namespace ShapeContract

/-! ## Deriving without a registry -/

/-- The rule tree of a schema. -/
def Environment.tree (env : Environment) (s : Subject) : Except Failure Rule := do
  let bound ← env.bound
  (introspect env.catalog bound s.value).outcome

/-- The wire document of a schema and overrides, with nothing kept. -/
def Environment.derive (env : Environment) (schema : Option Subject) (o : Overrides)
    (allowUnknown : Bool) : Except Failure Value :=
  match schema with
  | none => Wire.ofOverrides allowUnknown o
  | some s => do
    let tree ← env.tree s
    let effective ← o.apply tree
    pure (Wire.ofTree allowUnknown effective)

/-- A request for a wire document or a validator. -/
structure Request where
  schema : Option Subject
  overrides : Value
  options : Value

namespace Request

def key (c : Request) : Except Failure String := Overrides.keyOf c.overrides c.options

/-- What a request derives with nothing kept. -/
def document (env : Environment) (c : Request) : Except Failure Value := do
  let o ← Overrides.ofValue c.overrides
  let opts ← ValidatorOptions.ofValue c.options
  let _ ← o.key opts
  env.derive c.schema o opts.allowUnknown

def validator [CharacterNames] (env : Environment) (c : Request) :
    Except Failure Wire.Validator := do
  let wire ← c.document env
  let opts ← ValidatorOptions.ofValue c.options
  (Wire.compile opts.handling wire).outcome

/-- The request to a registry. -/
def emit (env : Environment) (c : Request) : RegistryM (Stored Value) := do
  let o ← Overrides.ofValue c.overrides
  let opts ← ValidatorOptions.ofValue c.options
  RegistryM.emit env c.schema o opts

def build [CharacterNames] (env : Environment) (c : Request) :
    RegistryM (Stored Wire.Validator) := do
  let o ← Overrides.ofValue c.overrides
  let opts ← ValidatorOptions.ofValue c.options
  RegistryM.build env c.schema o opts

end Request

/-- Requests on schema objects that each keep their identity. -/
structure Requests where
  Asked : Request → Prop
  Known : Subject → Prop
  unique : ∀ s t, Known s → Known t → s.handle = t.handle → s = t
  known : ∀ c, Asked c → ∀ s, c.schema = some s → Known s

/-- Calls without a schema, and calls on a known one. -/
def Requests.Holds (p : Requests) (schema : Option Subject) : Prop :=
  ∀ s, schema = some s → p.Known s

/-! ## What is kept -/

/-- The bucket of a schema, or the one of calls without a schema. -/
def Registry.bucketAt (r : Registry) : Option Subject → Bucket
  | none => r.unbound
  | some s => (r.buckets.get? s.handle).getD {}

/-- The registry in which a schema, if there is one, has a bucket. -/
def Registry.readied (r : Registry) : Option Subject → Registry
  | none => r
  | some s => r.furnished s

/-- The schemas are known under one handle, or there is none. -/
abbrev SamePlace (s t : Option Subject) : Prop := s.map Subject.handle = t.map Subject.handle

namespace Registry

variable {r : Registry}

/-- The registry with another bucket for a schema. -/
def rebucketed (r : Registry) (schema : Option Subject) (f : Bucket → Bucket) : Registry :=
  match schema with
  | none => { r with unbound := f r.unbound }
  | some s => { r with buckets := r.buckets.put s.handle (f ((r.buckets.get? s.handle).getD {})) }

/-- Schemas of one place share a bucket. -/
theorem bucketAt_of_samePlace {s t : Option Subject} (same : SamePlace s t) :
    r.bucketAt s = r.bucketAt t := by
  cases s <;> cases t
  · rfl
  · cases same
  · cases same
  · exact congrArg (fun h => (r.buckets.get? h).getD {}) (Option.some.inj same)

/-- Changing a bucket changes it at its own place and nowhere else. -/
theorem bucketAt_rebucketed (r : Registry) (schema t : Option Subject) (f : Bucket → Bucket) :
    (r.rebucketed schema f).bucketAt t =
      if SamePlace t schema then f (r.bucketAt t) else r.bucketAt t := by
  cases schema <;> cases t
  · rfl
  · rw [if_neg nofun]
    rfl
  · rw [if_neg nofun]
    rfl
  next s t =>
    by_cases same : t.handle = s.handle
    · have place : SamePlace (some t) (some s) := congrArg some same
      rw [if_pos place]
      show ((r.buckets.put s.handle _).get? t.handle).getD {} = f ((r.buckets.get? t.handle).getD {})
      rw [same, Table.get?_put_self]
      rfl
    · have elsewhere : ¬SamePlace (some t) (some s) := mt Option.some.inj same
      rw [if_neg elsewhere]
      exact congrArg (Option.getD · ({} : Bucket)) (Table.get?_put_of_ne _ _ same)

@[simp] theorem trees_rebucketed (r : Registry) (schema : Option Subject) (f : Bucket → Bucket) :
    (r.rebucketed schema f).trees = r.trees := by
  cases schema <;> rfl

@[simp] theorem nextId_rebucketed (r : Registry) (schema : Option Subject) (f : Bucket → Bucket) :
    (r.rebucketed schema f).nextId = r.nextId := by
  cases schema <;> rfl

/-- An eviction empties the bucket of its place and leaves the others. -/
theorem bucketAt_evict (r : Registry) (evicted t : Option Subject) :
    (r.evict evicted).bucketAt t = if SamePlace evicted t then {} else r.bucketAt t := by
  cases evicted <;> cases t
  · rfl
  · rw [if_neg nofun]
    rfl
  · rw [if_neg nofun]
    rfl
  next s t =>
    by_cases same : t.handle = s.handle
    · have place : SamePlace (some s) (some t) := congrArg some same.symm
      rw [if_pos place]
      show ((r.buckets.erase s.handle).get? t.handle).getD {} = {}
      rw [same, Table.get?_erase_self]
      rfl
    · have elsewhere : ¬SamePlace (some s) (some t) := fun place =>
        same (Option.some.inj place).symm
      rw [if_neg elsewhere]
      exact congrArg (Option.getD · ({} : Bucket)) (Table.get?_erase_of_ne _ same)

end Registry

/-- Known schemas of one handle are one. -/
theorem Requests.eq_of_samePlace {p : Requests} {s t : Option Subject} (here : p.Holds s)
    (there : p.Holds t) (same : SamePlace s t) : s = t := by
  cases s <;> cases t
  · rfl
  · cases same
  · cases same
  next s t => rw [p.unique s t (here s rfl) (there t rfl) (Option.some.inj same)]

/-- Everything in a bucket has been derived from a request with the key it stands under. -/
structure Bucket.Sound [CharacterNames] (env : Environment) (p : Requests)
    (schema : Option Subject) (b : Bucket) :
    Prop where
  wires : ∀ key wire, b.wires.get? key = some wire →
    ∃ c, p.Asked c ∧ c.schema = schema ∧ c.key = .ok key ∧ c.document env = .ok wire.value
  validators : ∀ key validator, b.validators.get? key = some validator →
    ∃ c, p.Asked c ∧ c.schema = schema ∧ c.key = .ok key ∧ c.validator env = .ok validator.value

/-- The trees look like those of their schemas, and every bucket is sound. -/
structure Registry.Sound [CharacterNames] (env : Environment) (p : Requests) (r : Registry) :
    Prop where
  trees : ∀ s, p.Known s → ∀ tree, r.trees.get? s.handle = some tree →
    ∃ base, env.tree s = .ok base ∧ Rule.KidsAlike tree.value base
  buckets : ∀ schema, p.Holds schema → (r.bucketAt schema).Sound env p schema

theorem Bucket.sound_empty [CharacterNames] (env : Environment) (p : Requests)
    (schema : Option Subject) :
    Bucket.Sound env p schema {} :=
  ⟨fun _ _ found => (nomatch found), fun _ _ found => (nomatch found)⟩

/-- An empty registry keeps nothing unsound, from whichever number its objects are counted. -/
theorem Registry.sound_empty [CharacterNames] (env : Environment) (p : Requests) (nextId : Nat) :
    Registry.Sound env p { nextId := nextId } := by
  refine ⟨fun _ _ _ found => (nomatch found), fun schema _ => ?_⟩
  cases schema <;> exact Bucket.sound_empty env p _

namespace RegistryM

variable {env : Environment} {p : Requests} {r r' : Registry}

/-- Soundness is about the kept trees and buckets only. -/
theorem Sound.of_same [CharacterNames] (sound : r.Sound env p) (trees : r'.trees = r.trees)
    (buckets : r'.bucketAt = r.bucketAt) : r'.Sound env p :=
  ⟨trees ▸ sound.trees, buckets ▸ sound.buckets⟩

theorem bucketAt_congr (buckets : r'.buckets = r.buckets) (unbound : r'.unbound = r.unbound) :
    r'.bucketAt = r.bucketAt := by
  funext schema
  cases schema with
  | none => exact unbound
  | some s => exact congrArg (fun t : Table Bucket => (t.get? s.handle).getD {}) buckets

/-- Keeping a tree that looks like that of its schema. -/
theorem Sound.putTree [CharacterNames] (sound : r.Sound env p) {s : Subject} (known : p.Known s)
    (tree : Stored Rule) {base : Rule} (derived : env.tree s = .ok base)
    (alike : Rule.KidsAlike tree.value base) :
    ({ r with trees := r.trees.put s.handle tree } : Registry).Sound env p := by
  refine ⟨?_, sound.buckets⟩
  intro s' known' tree' found
  by_cases same : s'.handle = s.handle
  · obtain rfl := p.unique s' s known' known same
    rw [Table.get?_put_self, Option.some.injEq] at found
    exact ⟨base, derived, found ▸ alike⟩
  · rw [Table.get?_put_of_ne _ _ same] at found
    exact sound.trees s' known' tree' found

/-- A tree is answered that looks like that of the schema, or the same failure. -/
theorem yields_compileTree [CharacterNames] (sound : r.Sound env p) {s : Subject}
    (known : p.Known s) :
    ∃ answer r', Yields (compileTree env (some s)) r answer r' ∧ r'.Sound env p ∧
      r'.bucketAt = r.bucketAt ∧
      ((∃ e, answer = .error e ∧ env.tree s = .error e) ∨
        ∃ tree base, answer = .ok tree ∧ env.tree s = .ok base ∧
          Rule.KidsAlike tree.value base) := by
  cases bound : env.bound with
  | error e =>
    refine ⟨.error e, r, Yields.bind_error (Yields.lift bound), sound, rfl, Or.inl ⟨e, rfl, ?_⟩⟩
    rw [Environment.tree, bound]
    rfl
  | ok depth =>
    have derived : env.tree s = (introspect env.catalog depth s.value).outcome := by
      rw [Environment.tree, bound]
      rfl
    have shelves : (r.enrolled s).bucketAt = r.bucketAt :=
      bucketAt_congr (Registry.buckets_enrolled r s) (Registry.unbound_enrolled r s)
    have enrolled := Sound.of_same sound (Registry.trees_enrolled r s) shelves
    have compiles {answer : Except Failure (Stored Rule)} {r' : Registry}
        (looks : Yields (treeOf (some s) (introspect env.catalog depth)) r answer r') :
        Yields (compileTree env (some s)) r answer r' :=
      Yields.bind (Yields.lift bound) looks
    cases found : r.trees.get? s.handle with
    | some tree =>
      obtain ⟨base, isBase, alike⟩ := sound.trees s known tree found
      exact ⟨.ok tree, _, compiles (yields_treeOf_kept found), enrolled, shelves,
        Or.inr ⟨tree, base, rfl, isBase, alike⟩⟩
    | none =>
      cases outcome : (introspect env.catalog depth s.value).outcome with
      | error e =>
        exact ⟨.error e, _, compiles (yields_treeOf_failed found outcome), enrolled, shelves,
          Or.inl ⟨e, rfl, derived.trans outcome⟩⟩
      | ok base =>
        have isBase := derived.trans outcome
        have next : ({ r.enrolled s with nextId := r.nextId + 1 } : Registry).Sound env p :=
          Sound.of_same enrolled rfl rfl
        have kept := Sound.putTree next known ⟨r.nextId, base⟩ isBase rfl
        dsimp only at kept
        rw [Registry.trees_enrolled] at kept
        exact ⟨.ok ⟨r.nextId, base⟩, _, compiles (yields_treeOf_built found outcome), kept, shelves,
          Or.inr ⟨_, base, rfl, isBase, rfl⟩⟩

/-- **A document is derived as without a registry**, though from a tree that others have written to. -/
theorem yields_document [CharacterNames] (sound : r.Sound env p) {schema : Option Subject}
    (holds : p.Holds schema)
    (o : Overrides) (allowUnknown : Bool) :
    ∃ r', Yields (document env schema o allowUnknown) r (env.derive schema o allowUnknown) r' ∧
      r'.Sound env p ∧ r'.bucketAt = r.bucketAt := by
  cases schema with
  | none => exact ⟨r, Yields.lift rfl, sound, rfl⟩
  | some s =>
    have known := holds s rfl
    obtain ⟨answer, r₁, compiles, sound₁, shelves, outcome⟩ := yields_compileTree sound known
    show ∃ r', Yields (adaptedDocument env s o allowUnknown) r _ r' ∧ _
    unfold adaptedDocument
    rcases outcome with ⟨e, rfl, fails⟩ | ⟨tree, base, rfl, isBase, alike⟩
    · have derived : env.derive (some s) o allowUnknown = .error e := by
        rw [Environment.derive, fails]
        rfl
      rw [derived]
      exact ⟨r₁, Yields.bind_error compiles, sound₁, shelves⟩
    · have derived : env.derive (some s) o allowUnknown =
          (o.apply tree.value).map (Wire.ofTree allowUnknown) := by
        rw [o.document_alike alike, Environment.derive, isBase]
        show (o.apply base >>= fun effective => pure (Wire.ofTree allowUnknown effective)) = _
        cases o.apply base <;> rfl
      rw [derived]
      cases applied : o.apply tree.value with
      | error e =>
        exact ⟨r₁, Yields.bind compiles (Yields.bind_error (Yields.lift applied)), sound₁, shelves⟩
      | ok effective =>
        have written : Rule.KidsAlike (o.applyShared tree.value) base :=
          (o.applyShared_alike tree.value).trans alike
        refine ⟨_, ?_, Sound.putTree sound₁ known
          ⟨tree.id, o.applyShared tree.value⟩ isBase written, shelves⟩
        exact Yields.bind compiles (Yields.bind (Yields.lift applied)
          (Yields.bind (Yields.change _) (Yields.pure _)))

/-- Looking up a bucket makes an empty one where there was none. -/
theorem yields_readied (schema : Option Subject) (r : Registry) :
    Yields (bucketOf schema) r (.ok (r.bucketAt schema)) (r.readied schema) := by
  cases schema with
  | none => exact Yields.bind Yields.registry (Yields.pure _)
  | some s => exact yields_bucketOf_some s r

theorem trees_readied (schema : Option Subject) (r : Registry) :
    (r.readied schema).trees = r.trees := by
  cases schema with
  | none => rfl
  | some s => exact Registry.trees_enrolled r s

/-- That empty bucket reads as the missing one did. -/
theorem bucketAt_readied (schema : Option Subject) (r : Registry) :
    (r.readied schema).bucketAt = r.bucketAt := by
  cases schema with
  | none => rfl
  | some s =>
    funext other
    cases other with
    | none => exact Registry.unbound_enrolled r s
    | some t => exact Registry.bucket_furnished r s t.handle

/-- Looking for a bucket finds it, and changes nothing that is kept. -/
theorem yields_bucketOf (schema : Option Subject) (r : Registry) :
    ∃ r', Yields (bucketOf schema) r (.ok (r.bucketAt schema)) r' ∧ r'.trees = r.trees ∧
      r'.bucketAt = r.bucketAt :=
  ⟨_, yields_readied schema r, trees_readied schema r, bucketAt_readied schema r⟩

/-- Changing a bucket keeps a registry sound if it keeps the bucket sound. -/
theorem yields_changeBucket [CharacterNames] {schema : Option Subject} (holds : p.Holds schema)
    (f : Bucket → Bucket) (r : Registry) :
    ∃ r', Yields (changeBucket schema f) r (.ok ()) r' ∧
      r'.bucketAt schema = f (r.bucketAt schema) ∧
      (r.Sound env p → (f (r.bucketAt schema)).Sound env p schema → r'.Sound env p) := by
  refine ⟨r.rebucketed schema f, Yields.change _, ?_, fun sound changed => ⟨?_, ?_⟩⟩
  · rw [Registry.bucketAt_rebucketed, if_pos rfl]
  · rw [Registry.trees_rebucketed]
    exact sound.trees
  · intro other holds'
    rw [Registry.bucketAt_rebucketed]
    split
    next same =>
      obtain rfl := p.eq_of_samePlace holds' holds same
      exact changed
    next => exact sound.buckets other holds'

end RegistryM

/-! ## One request -/

namespace Request

variable {env : Environment} {c : Request} {o : Overrides} {opts : ValidatorOptions}

/-- A request that can be read and has a key. -/
structure Reads (c : Request) (o : Overrides) (opts : ValidatorOptions) (key : String) : Prop where
  overrides : Overrides.ofValue c.overrides = .ok o
  options : ValidatorOptions.ofValue c.options = .ok opts
  hasKey : o.key opts = .ok key

/-- The key of a request that reads is the one it is kept under. -/
theorem Reads.key {key : String} (reads : Reads c o opts key) : c.key = .ok key := by
  rw [Request.key, Overrides.keyOf, reads.overrides, reads.options]
  exact reads.hasKey

/-- Its document is derived from the overrides and options it reads. -/
theorem Reads.document {key : String} (reads : Reads c o opts key) :
    c.document env = env.derive c.schema o opts.allowUnknown := by
  rw [Request.document, reads.overrides, reads.options]
  show (o.key opts >>= fun _ => env.derive c.schema o opts.allowUnknown) = _
  rw [reads.hasKey]
  rfl

/-- Its validator is compiled from the derived document. -/
theorem Reads.validator [CharacterNames] {key : String} (reads : Reads c o opts key) {wire : Value}
    (derived : c.document env = .ok wire) :
    c.validator env = (Wire.compile opts.handling wire).outcome := by
  rw [Request.validator, derived, reads.options]
  rfl

/-- Requests with one key are read with the same flags. -/
theorem Reads.options_eq {c' : Request} {key : String} (reads : Reads c o opts key)
    (key' : c'.key = .ok key) : ∃ o', Reads c' o' opts key := by
  unfold Request.key Overrides.keyOf at key'
  cases overrides : Overrides.ofValue c'.overrides with
  | error e => rw [overrides] at key'; cases key'
  | ok o' =>
    cases options : ValidatorOptions.ofValue c'.options with
    | error e => rw [overrides, options] at key'; cases key'
    | ok opts' =>
      rw [overrides, options] at key'
      have hasKey : o'.key opts' = .ok key := key'
      obtain rfl := Overrides.options_of_key reads.hasKey hasKey
      exact ⟨o', overrides, options, hasKey⟩

end Request

namespace RegistryM

variable {env : Environment} {p : Requests} {r : Registry} {c : Request} {o : Overrides}
  {opts : ValidatorOptions} {key : String}

/-- Keeping a document under the key of its request keeps the bucket sound. -/
theorem Sound.keepWire [CharacterNames] {b : Bucket} {schema : Option Subject}
    (sound : b.Sound env p schema)
    (asked : p.Asked c) (here : c.schema = schema) (hasKey : c.key = .ok key) {wire : Stored Value}
    (derived : c.document env = .ok wire.value) :
    ({ b with wires := b.wires.put key wire } : Bucket).Sound env p schema := by
  refine ⟨?_, sound.validators⟩
  intro key' wire' found
  by_cases same : key' = key
  · rw [same, Fields.get?_put_self, Option.some.injEq] at found
    exact ⟨c, asked, here, same ▸ hasKey, found ▸ derived⟩
  · rw [Fields.get?_put_of_ne _ _ same] at found
    exact sound.wires key' wire' found

/-- Keeping a validator does too. -/
theorem Sound.keepValidator [CharacterNames] {b : Bucket} {schema : Option Subject}
    (sound : b.Sound env p schema)
    {c' : Request} (asked : p.Asked c') (here : c'.schema = schema) (hasKey : c'.key = .ok key)
    {validator : Stored Wire.Validator} (derived : c'.validator env = .ok validator.value) :
    ({ b with validators := b.validators.put key validator } : Bucket).Sound env p schema := by
  refine ⟨sound.wires, ?_⟩
  intro key' validator' found
  by_cases same : key' = key
  · rw [same, Fields.get?_put_self, Option.some.injEq] at found
    exact ⟨c', asked, here, same ▸ hasKey, found ▸ derived⟩
  · rw [Fields.get?_put_of_ne _ _ same] at found
    exact sound.validators key' validator' found

/-- **A request for a document** is answered with what is kept under its key, or else with what it
derives, which is kept from then on. -/
theorem yields_emit [CharacterNames] (sound : r.Sound env p) (holds : p.Holds c.schema)
    (reads : c.Reads o opts key) :
    ∃ answer r', Yields (emit env c.schema o opts) r answer r' ∧ (p.Asked c → r'.Sound env p) ∧
      (∀ wire, answer = .ok wire → (r'.bucketAt c.schema).wires.get? key = some wire) ∧
      ((∃ wire, (r.bucketAt c.schema).wires.get? key = some wire ∧ answer = .ok wire) ∨
        ((r.bucketAt c.schema).wires.get? key = none ∧
          answer.map Stored.value = c.document env)) := by
  obtain ⟨r₁, finds, trees₁, shelves₁⟩ := yields_bucketOf c.schema r
  have sound₁ := Sound.of_same sound trees₁ shelves₁
  unfold emit
  cases kept : (r.bucketAt c.schema).wires.get? key with
  | some wire =>
    refine ⟨.ok wire, r₁, ?_, fun _ => sound₁, ?_, Or.inl ⟨wire, rfl, rfl⟩⟩
    · refine Yields.bind (Yields.lift reads.hasKey) (Yields.bind finds ?_)
      rw [kept]
      exact Yields.bind (Yields.note _) (Yields.pure wire)
    · intro wire' same
      cases same
      rw [shelves₁]
      exact kept
  | none =>
    obtain ⟨r₂, documents, sound₂, shelves₂⟩ := yields_document sound₁ holds o opts.allowUnknown
    cases derived : env.derive c.schema o opts.allowUnknown with
    | error e =>
      rw [derived] at documents
      refine ⟨.error e, r₂, ?_, fun _ => sound₂, fun _ same => (nomatch same), Or.inr ⟨rfl, ?_⟩⟩
      · refine Yields.bind (Yields.lift reads.hasKey) (Yields.bind finds ?_)
        rw [kept]
        exact Yields.bind (Yields.note _) (Yields.bind_error documents)
      · rw [reads.document, derived]
        rfl
    | ok document =>
      rw [derived] at documents
      let wire : Stored Value := ⟨r₂.nextId, document⟩
      let r₃ : Registry := { r₂ with nextId := r₂.nextId + 1 }
      have sound₃ : r₃.Sound env p := Sound.of_same sound₂ rfl rfl
      obtain ⟨r₄, changes, bucket, keeps⟩ := yields_changeBucket holds
        (fun b => { b with wires := b.wires.put key wire }) r₃
      refine ⟨.ok wire, r₄, ?_, ?_, ?_, Or.inr ⟨rfl, ?_⟩⟩
      · refine Yields.bind (Yields.lift reads.hasKey) (Yields.bind finds ?_)
        rw [kept]
        exact Yields.bind (Yields.note _) (Yields.bind documents (Yields.bind (Yields.store document)
          (Yields.bind changes (Yields.pure wire))))
      · intro asked
        refine keeps sound₃ (Sound.keepWire (sound₃.buckets c.schema holds) asked rfl reads.key ?_)
        rw [reads.document, derived]
      · intro wire' same
        cases same
        rw [bucket]
        exact Fields.get?_put_self _ _ _
      · rw [reads.document, derived]
        rfl

/-- **A request for a validator** is answered with what is kept under its key, or else with what is
compiled from the document that the same request for a document is answered with. -/
theorem yields_build [CharacterNames] (sound : r.Sound env p) (holds : p.Holds c.schema)
    (reads : c.Reads o opts key) :
    ∃ answer r', Yields (build env c.schema o opts) r answer r' ∧ (p.Asked c → r'.Sound env p) ∧
      ((∃ validator, (r.bucketAt c.schema).validators.get? key = some validator ∧
          answer = .ok validator) ∨
        ∃ wire, ((∃ kept, (r.bucketAt c.schema).wires.get? key = some kept ∧
            wire = .ok kept.value) ∨
            (r.bucketAt c.schema).wires.get? key = none ∧ wire = c.document env) ∧
          answer.map Stored.value =
            (wire >>= fun w => (Wire.compile opts.handling w).outcome)) := by
  obtain ⟨r₁, finds, trees₁, shelves₁⟩ := yields_bucketOf c.schema r
  have sound₁ := Sound.of_same sound trees₁ shelves₁
  unfold build
  cases kept : (r.bucketAt c.schema).validators.get? key with
  | some validator =>
    refine ⟨.ok validator, r₁, ?_, fun _ => sound₁, Or.inl ⟨validator, rfl, rfl⟩⟩
    refine Yields.bind (Yields.lift reads.hasKey) (Yields.bind finds ?_)
    rw [kept]
    exact Yields.bind (Yields.note _) (Yields.pure validator)
  | none =>
    obtain ⟨answer, r₂, emits, sound₂, _, wires⟩ := yields_emit sound₁ holds reads
    rw [shelves₁] at wires
    -- The document, by whichever way it was answered.
    have source : ((∃ kept, (r.bucketAt c.schema).wires.get? key = some kept ∧
        answer.map Stored.value = .ok kept.value) ∨
        (r.bucketAt c.schema).wires.get? key = none ∧
          answer.map Stored.value = c.document env) := by
      rcases wires with ⟨wire, found, rfl⟩ | ⟨missing, derived⟩
      · exact Or.inl ⟨wire, found, rfl⟩
      · exact Or.inr ⟨missing, derived⟩
    cases answer with
    | error e =>
      refine ⟨.error e, r₂, ?_, sound₂, Or.inr ⟨_, source, rfl⟩⟩
      refine Yields.bind (Yields.lift reads.hasKey) (Yields.bind finds ?_)
      rw [kept]
      exact Yields.bind (Yields.note _) (Yields.bind_error emits)
    | ok wire =>
      cases compiled : (Wire.compile opts.handling wire.value).outcome with
      | error e =>
        refine ⟨.error e, r₂, ?_, sound₂, Or.inr ⟨_, source, ?_⟩⟩
        · refine Yields.bind (Yields.lift reads.hasKey) (Yields.bind finds ?_)
          rw [kept]
          exact Yields.bind (Yields.note _) (Yields.bind emits
            (Yields.bind_error (Yields.perform compiled)))
        · exact compiled.symm
      | ok validator =>
        let stored : Stored Wire.Validator := ⟨r₂.nextId, validator⟩
        let r₃ : Registry := { r₂ with nextId := r₂.nextId + 1 }
        obtain ⟨r₄, changes, _, keeps⟩ := yields_changeBucket holds
          (fun b => { b with validators := b.validators.put key stored }) r₃
        refine ⟨.ok stored, r₄, ?_, ?_, Or.inr ⟨_, source, compiled.symm⟩⟩
        · refine Yields.bind (Yields.lift reads.hasKey) (Yields.bind finds ?_)
          rw [kept]
          exact Yields.bind (Yields.note _) (Yields.bind emits (Yields.bind (Yields.perform compiled)
            (Yields.bind (Yields.store validator) (Yields.bind changes (Yields.pure stored)))))
        · intro asked
          have sound₃ : r₃.Sound env p := Sound.of_same (sound₂ asked) rfl rfl
          have bucket := sound₃.buckets c.schema holds
          refine keeps sound₃ ?_
          rcases source with ⟨found, there, value⟩ | ⟨_, value⟩
          · obtain ⟨c', asked', here, hasKey, derived⟩ :=
              (sound.buckets c.schema holds).wires key found there
            obtain ⟨o', reads'⟩ := reads.options_eq hasKey
            refine Sound.keepValidator bucket asked' here hasKey ?_
            rw [reads'.validator derived, ← Except.ok.inj value]
            exact compiled
          · refine Sound.keepValidator bucket asked rfl reads.key ?_
            rw [reads.validator value.symm]
            exact compiled

end RegistryM

end ShapeContract
