import ShapeContract.Proofs.Registry.Growth
import ShapeContract.Proofs.Registry.Thrift
import ShapeContract.Proofs.Registry.Transparency

/-!
# Stages

A validator is made from a document, a document from a tree, and every stage is kept as soon as it
is made, though a later one may fail. Over any run the stages stay consistent: `Registry.staged`.
-/

set_option autoImplicit false

namespace ShapeContract

/-- A use of a registry, and what it finds around it: settings and schema objects may change. -/
structure Call where
  env : Environment
  use : Use

/-- The appended mappings have no rule for a child, which would be taken as it is. -/
def Request.Owned (c : Request) : Prop := ∀ o, Overrides.ofValue c.overrides = .ok o → o.owned = true

namespace Use

/-- The schema whose derivations are asked for. -/
def schema? : Use → Option Subject
  | .compile schema => schema
  | .emit c => c.schema
  | .build c => c.schema
  | .evict _ => none
  | .clear => none

/-- No definition has a rule to which the call could write, so that the arguments stay as they are. -/
def Owned : Use → Prop
  | .emit c => c.Owned
  | .build c => c.Owned
  | _ => True

/-- What is kept for the schema is dropped. -/
def Drops : Use → Option Subject → Prop
  | .evict evicted, schema => SamePlace evicted schema
  | .clear, _ => True
  | _, _ => False

end Use

namespace Registry

/-- A call, with the records that it writes. -/
def calling [CharacterNames] (r : Registry) (call : Call) :
    Desk := ((call.use.perform call.env).run ⟨r, []⟩).2

def step [CharacterNames] (r : Registry) (call : Call) : Registry := (r.calling call).registry

/-- A new registry after calls in order; what has failed leaves what it had changed. -/
def ran [CharacterNames] (calls : List Call) : Registry := calls.foldl step {}

/-- How often a schema is introspected in calls. -/
def introspections [CharacterNames] (s : Subject) (r : Registry) : List Call → Nat
  | [] => 0
  | call :: rest =>
    (if SamePlace call.use.schema? (some s) then (r.calling call).introspections else 0) +
      introspections s (r.step call) rest

/-- A validator has been made by a call that was answered with it, from the document with which the
same request for a document was answered. -/
def Made [CharacterNames] (calls : List Call) (schema : Option Subject) (key : String)
    (wire : Stored Value)
    (validator : Stored Wire.Validator) : Prop :=
  ∃ before env c later, calls = before ++ ⟨env, .build c⟩ :: later ∧ SamePlace c.schema schema ∧
    c.key = .ok key ∧ (ran before).answer (c.emit env) = .ok wire ∧
      (ran before).answer (c.build env) = .ok validator

/-- The stages are consistent after calls. -/
structure Staged [CharacterNames] (calls : List Call) : Prop where
  /-- A validator is that of the document under its key, with the flags in the key. -/
  validator : ∀ schema key validator,
    ((ran calls).bucketAt schema).validators.get? key = some validator →
      ∃ wire, ((ran calls).bucketAt schema).wires.get? key = some wire ∧
        Made calls schema key wire validator ∧ ∀ (o : Overrides) opts, o.key opts = .ok key →
          (Wire.compile opts.handling wire.value).outcome = .ok validator.value
  /-- A schema with a document has a tree. -/
  wire : ∀ schema key wire, ((ran calls).bucketAt schema).wires.get? key = some wire →
    (ran calls).HasTree schema
  /-- A schema is introspected once at most unless it is dropped. -/
  introspected : ∀ before stretch s, calls = before ++ stretch →
    (∀ call ∈ stretch, ¬call.use.Drops (some s)) → introspections s (ran before) stretch ≤ 1
  /-- What has been answered once is answered again, until it is dropped. For requests this is said
  where no mapping that is appended has a rule for a child: a call may write to such a rule, and the
  request is then another one. -/
  compiled : ∀ before env s later tree, calls = before ++ ⟨env, .compile (some s)⟩ :: later →
    (ran before).answer (RegistryM.compileTree env (some s)) = .ok tree →
      (∀ call ∈ later, ¬call.use.Drops (some s)) → ∀ env' bound, env'.bound = .ok bound →
        ∃ tree', (ran calls).answer (RegistryM.compileTree env' (some s)) = .ok tree' ∧
          tree'.id = tree.id
  emitted : ∀ before env c later wire, calls = before ++ ⟨env, .emit c⟩ :: later →
    (ran before).answer (c.emit env) = .ok wire → c.Owned →
      (∀ call ∈ later, call.use.Owned ∧ ¬call.use.Drops c.schema) →
        ∀ (c' : Request) env', SamePlace c'.schema c.schema → c'.key = c.key →
          (ran calls).answer (c'.emit env') = .ok wire
  built : ∀ before env c later validator, calls = before ++ ⟨env, .build c⟩ :: later →
    (ran before).answer (c.build env) = .ok validator → c.Owned →
      (∀ call ∈ later, call.use.Owned ∧ ¬call.use.Drops c.schema) →
        ∀ (c' : Request) env', SamePlace c'.schema c.schema → c'.key = c.key →
          (ran calls).answer (c'.build env') = .ok validator
  /-- Without a schema every tree is a new one, and empty. -/
  unbound : ∀ before env later tree env' tree', calls = before ++ ⟨env, .compile none⟩ :: later →
    (ran before).answer (RegistryM.compileTree env none) = .ok tree →
      (ran calls).answer (RegistryM.compileTree env' none) = .ok tree' →
        tree'.value = Rule.empty ∧ tree'.id ≠ tree.id

open RegistryM

variable {r r' : Registry} {call : Call} {calls before later stretch : List Call}
  {schema : Option Subject}

/-! ## One call -/

/-- What a call does with what is kept. -/
structure Moves [CharacterNames] (call : Call) (r r' : Registry) : Prop where
  nextId : r.nextId ≤ r'.nextId
  keeps : ∀ t, ¬call.use.Drops t → Keeps t r r'
  drops : ∀ t, call.use.Drops t → r'.bucketAt t = {}
  wires : ∀ t k wire, (r'.bucketAt t).wires.get? k = some wire →
    (r.bucketAt t).wires.get? k = some wire ∨ r'.HasTree t
  validators : ∀ t k validator, (r'.bucketAt t).validators.get? k = some validator →
    (r.bucketAt t).validators.get? k = some validator ∨
      ∃ c wire, call.use = .build c ∧ SamePlace c.schema t ∧ c.key = .ok k ∧
        r.answer (c.emit call.env) = .ok wire ∧ r.answer (c.build call.env) = .ok validator ∧
        (r'.bucketAt t).wires.get? k = some wire ∧ ∀ (o : Overrides) opts, o.key opts = .ok k →
          (Wire.compile opts.handling wire.value).outcome = .ok validator.value

/-- Trees and identities have grown, and nothing is dropped. -/
theorem Moves.of_grows [CharacterNames] (grows : Grows r r') (buckets : r'.bucketAt = r.bucketAt)
    (holds : ∀ t, ¬call.use.Drops t) : Moves call r r' where
  nextId := grows.nextId
  keeps t _ := grows.keeps t
  drops t drops := absurd drops (holds t)
  wires _ _ _ kept := Or.inl (buckets ▸ kept)
  validators _ _ _ kept := Or.inl (buckets ▸ kept)

/-- What is dropped is gone, and everything else is as it was. -/
theorem Moves.of_drops [CharacterNames] (nextId : r.nextId ≤ r'.nextId)
    (drops : ∀ t, call.use.Drops t → r'.bucketAt t = {})
    (buckets : ∀ t, ¬call.use.Drops t → r'.bucketAt t = r.bucketAt t)
    (trees : ∀ s, ¬call.use.Drops (some s) → r'.trees.get? s.handle = r.trees.get? s.handle) :
    Moves call r r' where
  nextId := nextId
  keeps t holds := by
    refine ⟨?_, fun _ _ kept => buckets t holds ▸ kept, fun _ _ kept => buckets t holds ▸ kept⟩
    rintro s rfl tree kept
    exact ⟨tree, (trees s holds).trans kept, rfl⟩
  drops := drops
  wires t k wire kept := by
    by_cases dropped : call.use.Drops t
    · rw [drops t dropped] at kept
      cases kept
    · exact Or.inl (buckets t dropped ▸ kept)
  validators t k validator kept := by
    by_cases dropped : call.use.Drops t
    · rw [drops t dropped] at kept
      cases kept
    · exact Or.inl (buckets t dropped ▸ kept)

/-- An eviction moves the registry by releasing one place. -/
theorem moves_evict [CharacterNames] (env : Environment) (evicted : Option Subject) (r : Registry) :
    Moves ⟨env, .evict evicted⟩ r (r.evict evicted) := by
  refine .of_drops ?_ (fun t dropped => ?_) (fun t holds => ?_) fun s holds => ?_
  · cases evicted <;> exact Nat.le_refl _
  · exact (bucketAt_evict r evicted t).trans (if_pos dropped)
  · exact (bucketAt_evict r evicted t).trans (if_neg holds)
  · cases evicted with
    | none => rfl
    | some e =>
      exact Table.get?_erase_of_ne _ fun same => holds (congrArg some same.symm)

/-- A call leaves the registry its code yields, whatever it answers. -/
theorem step_eq [CharacterNames] (call : Call) {done : Except Failure Unit}
    (yields : Yields (call.use.perform call.env) r done r') :
    r.step call = r' := by
  obtain ⟨journal, run⟩ := yields []
  rw [step, calling, run]

/-- A call of `emit` only adds, it drops nothing that is kept. -/
theorem moves_emit [CharacterNames] (env : Environment) (c : Request) (r : Registry) :
    Moves ⟨env, .emit c⟩ r (r.step ⟨env, .emit c⟩) := by
  rcases Requests.reads_or_fails env c with ⟨o, opts, key, reads⟩ | ⟨e, _, fails⟩
  · obtain ⟨answer, r', always, emits⟩ := emits env c.schema reads.hasKey r
    obtain ⟨done, yields⟩ := Requests.yields_discard (Requests.yields_emit_of_reads reads (always r rfl))
    rw [step_eq ⟨env, .emit c⟩ yields]
    exact ⟨emits.grows.nextId, fun t _ => emits.grows.keeps t, fun _ => False.elim, emits.wires,
      fun t _ _ kept => Or.inl (emits.validators t ▸ kept)⟩
  · obtain ⟨done, yields⟩ := Requests.yields_discard (fails r).1
    rw [step_eq ⟨env, .emit c⟩ yields]
    exact .of_grows (.refl r) rfl fun _ => id

theorem moves_build [CharacterNames] (env : Environment) (c : Request) (r : Registry) :
    Moves ⟨env, .build c⟩ r (r.step ⟨env, .build c⟩) := by
  rcases Requests.reads_or_fails env c with ⟨o, opts, key, reads⟩ | ⟨e, _, fails⟩
  · obtain ⟨answer, r', builds', builds⟩ := builds env c.schema reads.hasKey r
    have request := Requests.yields_build_of_reads reads builds'
    obtain ⟨done, yields⟩ := Requests.yields_discard request
    rw [step_eq ⟨env, .build c⟩ yields]
    refine ⟨builds.grows.nextId, fun t _ => builds.grows.keeps t, fun _ => False.elim, builds.wires,
      fun t k validator kept => (builds.validators t k validator kept).imp id ?_⟩
    rintro ⟨same, rfl, rfl, wire, emitted, keptWire, compiled⟩
    obtain ⟨_, _, always, _⟩ := emits env c.schema reads.hasKey r
    have answered := Requests.yields_emit_of_reads reads (always r rfl)
    rw [(always r rfl).answer_eq] at emitted
    refine ⟨c, wire, rfl, same.symm, reads.key, answered.answer_eq.trans emitted,
      request.answer_eq, keptWire, fun o' opts' hasKey' => ?_⟩
    obtain rfl := Overrides.options_of_key reads.hasKey hasKey'
    exact compiled
  · obtain ⟨done, yields⟩ := Requests.yields_discard (fails r).2
    rw [step_eq ⟨env, .build c⟩ yields]
    exact .of_grows (.refl r) rfl fun _ => id

/-- The same for a call that compiles a tree. -/
theorem moves_compile [CharacterNames] (env : Environment) (schema : Option Subject)
    (r : Registry) :
    Moves ⟨env, .compile schema⟩ r (r.step ⟨env, .compile schema⟩) := by
  have grown {answer : Except Failure (Stored Rule)} {r' : Registry}
      (compiles : Yields (compileTree env schema) r answer r') (grows : Grows r r')
      (buckets : r'.bucketAt = r.bucketAt) :
      Moves ⟨env, .compile schema⟩ r (r.step ⟨env, .compile schema⟩) := by
    obtain ⟨done, yields⟩ := Requests.yields_discard compiles
    rw [step_eq ⟨env, .compile schema⟩ yields]
    exact .of_grows grows buckets fun _ => id
  cases schema with
  | some s =>
    obtain ⟨answer, r', compiles, buckets, grows, _⟩ := compileTree_grows env s r
    exact grown compiles grows buckets
  | none =>
    cases settings : env.bound with
    | error e => exact grown (Yields.bind_error (Yields.lift settings)) (.refl r) rfl
    | ok bound =>
      exact grown (Yields.bind (Yields.lift settings) (Yields.store Rule.empty))
        (.of_same rfl rfl (Nat.le_succ _)) rfl

/-- **One call.** -/
theorem moves [CharacterNames] (call : Call) (r : Registry) : Moves call r (r.step call) := by
  obtain ⟨env, use⟩ := call
  cases use with
  | compile schema => exact moves_compile env schema r
  | emit c => exact moves_emit env c r
  | build c => exact moves_build env c r
  | evict evicted => exact moves_evict env evicted r
  | clear =>
    refine .of_drops (Nat.le_refl _) (fun t _ => ?_) (fun _ holds => ?_) fun _ holds => ?_
    · cases t <;> rfl
    · exact absurd trivial holds
    · exact absurd trivial holds

/-! ## Runs -/

/-- What no call of a run drops is kept through the run. -/
theorem keeps_run [CharacterNames] (stays : ∀ call ∈ later, ¬call.use.Drops schema) (r : Registry) :
    Keeps schema r (later.foldl step r) := by
  induction later generalizing r with
  | nil => exact .refl schema r
  | cons call rest ih =>
    have first := (moves call r).keeps schema (stays call List.mem_cons_self)
    exact first.trans (ih (fun call inside => stays call (List.mem_cons_of_mem _ inside)) _)

theorem nextId_run [CharacterNames] (later : List Call) (r : Registry) :
    r.nextId ≤ (later.foldl step r).nextId := by
  induction later generalizing r with
  | nil => exact Nat.le_refl _
  | cons call rest ih => exact Nat.le_trans (moves call r).nextId (ih _)

/-- A run up to a call and the run after it. -/
theorem ran_split [CharacterNames] (before : List Call) (call : Call) (later : List Call) :
    ran (before ++ call :: later) = later.foldl step ((ran before).step call) := by
  rw [ran, List.foldl_append]
  rfl

theorem ran_concat [CharacterNames] (calls : List Call) (call : Call) :
    ran (calls ++ [call]) = (ran calls).step call := ran_split calls call []

/-- What is kept after a call has not been dropped by it. -/
theorem Moves.stays [CharacterNames] (moves : Moves call r r') {key : String} {wire : Stored Value}
    (kept : (r'.bucketAt schema).wires.get? key = some wire) : ¬call.use.Drops schema := by
  intro dropped
  rw [moves.drops schema dropped] at kept
  cases kept

/-- A document is kept only where its tree is kept too. -/
theorem hasTree_of_wire [CharacterNames] (calls : List Call) (schema : Option Subject)
    (key : String)
    (wire : Stored Value) (kept : ((ran calls).bucketAt schema).wires.get? key = some wire) :
    (ran calls).HasTree schema := by
  induction calls using List.reverseRecOn with
  | nil => cases schema <;> cases kept
  | append_singleton calls call ih =>
    have move := moves call (ran calls)
    rw [ran_concat] at kept ⊢
    rcases move.wires schema key wire kept with old | has
    · exact (move.keeps schema (move.stays kept)).hasTree (ih old)
    · exact has

/-- What one call made stays made when more calls follow. -/
theorem Made.concat [CharacterNames] {key : String} {wire : Stored Value}
    {validator : Stored Wire.Validator}
    (made : Made calls schema key wire validator) (call : Call) :
    Made (calls ++ [call]) schema key wire validator := by
  obtain ⟨before, env, c, later, rfl, rest⟩ := made
  exact ⟨before, env, c, later ++ [call], by simp, rest⟩

/-- **A validator is compiled from the document beside it.** -/
theorem wire_of_validator [CharacterNames] (calls : List Call) (schema : Option Subject)
    (key : String)
    (validator : Stored Wire.Validator)
    (kept : ((ran calls).bucketAt schema).validators.get? key = some validator) :
    ∃ wire, ((ran calls).bucketAt schema).wires.get? key = some wire ∧
      Made calls schema key wire validator ∧ ∀ (o : Overrides) opts, o.key opts = .ok key →
        (Wire.compile opts.handling wire.value).outcome = .ok validator.value := by
  induction calls using List.reverseRecOn with
  | nil => cases schema <;> cases kept
  | append_singleton calls call ih =>
    have move := moves call (ran calls)
    rw [ran_concat] at kept ⊢
    rcases move.validators schema key validator kept with
      old | ⟨c, wire, use, same, hasKey, emitted, built, keptWire, compiled⟩
    · have stays : ¬call.use.Drops schema := by
        intro dropped
        rw [move.drops schema dropped] at kept
        cases kept
      obtain ⟨wire, keptWire, made, compiled⟩ := ih old
      exact ⟨wire, (move.keeps schema stays).wire key wire keptWire, made.concat call, compiled⟩
    · refine ⟨wire, keptWire, ⟨calls, call.env, c, [], ?_, same, hasKey, emitted, built⟩, compiled⟩
      rw [← use]

/-! ### Introspections -/

/-- Each use of a schema introspects it at most once. -/
theorem thrifty_perform [CharacterNames] {s : Subject} {use : Use} (env : Environment)
    (here : use.schema? = some s) : Thrifty s.handle (use.perform env) := by
  cases use with
  | compile schema =>
    obtain rfl : schema = some s := here
    exact .bind (thrifty_compileTree env s) fun _ => .pure _
  | emit c =>
    obtain ⟨schema, overrides, options⟩ := c
    obtain rfl : schema = some s := here
    exact .bind (.bind (.lift _) fun o => .bind (.lift _) fun opts => thrifty_emit env s o opts)
      fun _ => .pure _
  | build c =>
    obtain ⟨schema, overrides, options⟩ := c
    obtain rfl : schema = some s := here
    exact .bind (.bind (.lift _) fun o => .bind (.lift _) fun opts => thrifty_build env s o opts)
      fun _ => .pure _
  | evict _ => cases here
  | clear => cases here

/-- Where nothing is dropped the count of trees never falls. -/
theorem treeCount_mono {s : Subject} (keeps : Keeps (some s) r r') :
    r.treeCount s.handle ≤ r'.treeCount s.handle := by
  unfold treeCount
  cases has : r.trees.contains s.handle with
  | false => exact Nat.zero_le _
  | true =>
    have has' := keeps.hasTree (fun _ here => Option.some.inj here ▸ has) s rfl
    rw [has']

/-- Every introspection leaves a tree, which then stays. -/
theorem introspections_add_le [CharacterNames] {s : Subject}
    (stays : ∀ call ∈ stretch, ¬call.use.Drops (some s))
    (r : Registry) : introspections s r stretch + r.treeCount s.handle ≤
      (stretch.foldl step r).treeCount s.handle := by
  induction stretch generalizing r with
  | nil => exact Nat.le_of_eq (Nat.zero_add _)
  | cons call rest ih =>
    have rest' := ih (fun call inside => stays call (List.mem_cons_of_mem _ inside)) (r.step call)
    have first : (if SamePlace call.use.schema? (some s) then (r.calling call).introspections else 0) +
        r.treeCount s.handle ≤ (r.step call).treeCount s.handle := by
      split
      next same =>
        obtain ⟨s', here, same⟩ := Option.map_eq_some_iff.1 same
        have thrifty := thrifty_perform call.env here ⟨r, []⟩
        rw [same] at thrifty
        have none : Desk.introspections ⟨r, []⟩ = 0 := rfl
        unfold ThriftyAt at thrifty
        rwa [none, Nat.zero_add] at thrifty
      next =>
        rw [Nat.zero_add]
        exact treeCount_mono ((moves call r).keeps (some s) (stays call List.mem_cons_self))
    rw [introspections, List.foldl_cons]
    omega

/-! ### Repeated calls -/

/-- A kept document is what `emit` answers, the very object. -/
theorem answer_emit_kept {c : Request} {o : Overrides} {opts : ValidatorOptions} {key : String}
    (reads : c.Reads o opts key) {wire : Stored Value}
    (kept : (r.bucketAt c.schema).wires.get? key = some wire) (env : Environment) :
    r.answer (c.emit env) = .ok wire := by
  obtain ⟨answer, r', always, emits⟩ := emits env c.schema reads.hasKey r
  exact (Requests.yields_emit_of_reads reads (always r rfl)).answer_eq.trans (emits.hit wire kept)

/-- A kept validator is what `build` answers, the very object. -/
theorem answer_build_kept [CharacterNames] {c : Request} {o : Overrides} {opts : ValidatorOptions}
    {key : String}
    (reads : c.Reads o opts key) {validator : Stored Wire.Validator}
    (kept : (r.bucketAt c.schema).validators.get? key = some validator) (env : Environment) :
    r.answer (c.build env) = .ok validator := by
  obtain ⟨answer, r', yields, builds⟩ := builds env c.schema reads.hasKey r
  exact (Requests.yields_build_of_reads reads yields).answer_eq.trans (builds.hit validator kept)

/-- A document that is answered is kept under the key of the request. -/
theorem kept_of_emit [CharacterNames] {env : Environment} {c : Request} {wire : Stored Value}
    (answered : r.answer (c.emit env) = .ok wire) : ∃ o opts key, c.Reads o opts key ∧
      ((r.step ⟨env, .emit c⟩).bucketAt c.schema).wires.get? key = some wire := by
  rcases Requests.reads_or_fails env c with ⟨o, opts, key, reads⟩ | ⟨e, _, fails⟩
  · obtain ⟨answer, r', always, emits⟩ := emits env c.schema reads.hasKey r
    have yields := Requests.yields_emit_of_reads reads (always r rfl)
    obtain ⟨done, performs⟩ := Requests.yields_discard yields
    refine ⟨o, opts, key, reads, ?_⟩
    rw [step_eq ⟨env, .emit c⟩ performs]
    exact emits.kept wire (yields.answer_eq.symm.trans answered)
  · rw [(fails r).1.answer_eq] at answered
    cases answered

/-- What `build` answered is kept under the key of the request. -/
theorem kept_of_build [CharacterNames] {env : Environment} {c : Request}
    {validator : Stored Wire.Validator}
    (answered : r.answer (c.build env) = .ok validator) : ∃ o opts key, c.Reads o opts key ∧
      ((r.step ⟨env, .build c⟩).bucketAt c.schema).validators.get? key = some validator := by
  rcases Requests.reads_or_fails env c with ⟨o, opts, key, reads⟩ | ⟨e, _, fails⟩
  · obtain ⟨answer, r', builds', builds⟩ := builds env c.schema reads.hasKey r
    have yields := Requests.yields_build_of_reads reads builds'
    obtain ⟨done, performs⟩ := Requests.yields_discard yields
    refine ⟨o, opts, key, reads, ?_⟩
    rw [step_eq ⟨env, .build c⟩ performs]
    exact builds.kept validator (yields.answer_eq.symm.trans answered)
  · rw [(fails r).2.answer_eq] at answered
    cases answered

/-- The compiled tree of a schema is kept under its handle. -/
theorem kept_of_compile [CharacterNames] {env : Environment} {s : Subject} {tree : Stored Rule}
    (answered : r.answer (compileTree env (some s)) = .ok tree) :
    (r.step ⟨env, .compile (some s)⟩).trees.get? s.handle = some tree := by
  obtain ⟨answer, r', yields, _, _, keeps⟩ := compileTree_grows env s r
  obtain ⟨done, performs⟩ := Requests.yields_discard yields
  rw [step_eq ⟨env, .compile (some s)⟩ performs]
  exact keeps tree (yields.answer_eq.symm.trans answered)

/-- A tree without a schema takes the next identity. -/
theorem of_compile_none [CharacterNames] {env : Environment} {tree : Stored Rule}
    (answered : r.answer (compileTree env none) = .ok tree) :
    tree = ⟨r.nextId, Rule.empty⟩ ∧ (r.step ⟨env, .compile none⟩).nextId = r.nextId + 1 := by
  cases settings : env.bound with
  | error e =>
    have fails : Yields (compileTree env none) r (.error e) r :=
      Yields.bind_error (Yields.lift settings)
    rw [fails.answer_eq] at answered
    cases answered
  | ok bound =>
    have makes : Yields (compileTree env none) r _ _ :=
      Yields.bind (Yields.lift settings) (Yields.store Rule.empty)
    obtain ⟨done, performs⟩ := Requests.yields_discard makes
    rw [makes.answer_eq] at answered
    rw [step_eq ⟨env, .compile none⟩ performs]
    exact ⟨(Except.ok.inj answered).symm, rfl⟩

/-- **The stages are consistent after any calls.** -/
theorem staged [CharacterNames] (calls : List Call) : Staged calls where
  validator := wire_of_validator calls
  wire := hasTree_of_wire calls
  introspected before stretch s _ stays := by
    have bound := introspections_add_le stays (ran before)
    have one := treeCount_le (stretch.foldl step (ran before)) s.handle
    omega
  compiled before env s later tree split answered stays env' bound settings := by
    subst split
    obtain ⟨tree', kept, same⟩ :=
      (keeps_run stays _).tree s rfl tree (kept_of_compile answered)
    rw [ran_split]
    exact ⟨tree', answer_compileTree_kept settings kept, same⟩
  emitted before env c later wire split answered _ stays c' env' same sameKey := by
    subst split
    obtain ⟨o, opts, key, reads, kept⟩ := kept_of_emit answered
    obtain ⟨o', reads'⟩ := reads.options_eq (sameKey.trans reads.key)
    rw [ran_split]
    refine answer_emit_kept reads' ?_ env'
    rw [bucketAt_of_samePlace same]
    exact (keeps_run (fun call inside => (stays call inside).2) _).wire key wire kept
  built before env c later validator split answered _ stays c' env' same sameKey := by
    subst split
    obtain ⟨o, opts, key, reads, kept⟩ := kept_of_build answered
    obtain ⟨o', reads'⟩ := reads.options_eq (sameKey.trans reads.key)
    rw [ran_split]
    refine answer_build_kept reads' ?_ env'
    rw [bucketAt_of_samePlace same]
    exact (keeps_run (fun call inside => (stays call inside).2) _).validator key validator kept
  unbound before env later tree env' tree' split answered answered' := by
    subst split
    rw [ran_split] at answered'
    obtain ⟨rfl, next⟩ := of_compile_none answered
    obtain ⟨rfl, -⟩ := of_compile_none answered'
    have later := nextId_run later ((ran before).step ⟨env, .compile none⟩)
    rw [next] at later
    exact ⟨rfl, Nat.ne_of_gt later⟩

section

attribute [local instance] CharacterNames.common

def ageRequest : Request :=
  ⟨none, .object [("append", .object [("age", .object [("type", .str "number")])])], .null⟩

/-- A request whose definition is a mapping is answered with the same document twice. -/
theorem staged_ageRequest : ageRequest.Owned ∧ ∃ wire,
    (ran []).answer (ageRequest.emit ⟨[], .ok 8⟩) = .ok wire ∧
      (ran [⟨⟨[], .ok 8⟩, .emit ageRequest⟩]).answer (ageRequest.emit ⟨[], .ok 8⟩) = .ok wire := by
  have owned : ageRequest.Owned := by
    rintro o read
    cases read
    rfl
  obtain ⟨wire, answered⟩ : ∃ wire, (ran []).answer (ageRequest.emit ⟨[], .ok 8⟩) = .ok wire :=
    ⟨_, rfl⟩
  have stages := staged [⟨⟨[], .ok 8⟩, .emit ageRequest⟩]
  exact ⟨owned, wire, answered,
    stages.emitted [] _ ageRequest [] wire rfl answered owned nofun ageRequest _ rfl rfl⟩

/-- Without a schema, asking again gives another tree. -/
theorem another_tree_without_schema : ¬∀ (calls : List Call) env schema tree,
    (ran calls).answer (compileTree env schema) = .ok tree →
      ∃ tree', (ran (calls ++ [⟨env, .compile schema⟩])).answer (compileTree env schema) =
        .ok tree' ∧ tree'.id = tree.id := by
  intro identical
  obtain ⟨tree', answered, same⟩ := identical [] ⟨[], .ok 32⟩ none ⟨0, Rule.empty⟩ rfl
  obtain rfl : (⟨1, Rule.empty⟩ : Stored Rule) = tree' := Except.ok.inj answered
  cases same

end

end Registry

end ShapeContract
