import ShapeContract.Proofs.Registry.Kept
import ShapeContract.Proofs.Wire.Same

/-!
# Transparency of a registry

A registry is used for any requests in any order. Its answers are those of a fresh registry exactly
if requests with one schema and one key are answered alike by fresh registries:
`Requests.transparent_iff`.
-/

set_option autoImplicit false

namespace ShapeContract

/-- A use of a registry. -/
inductive Use where
  | compile (schema : Option Subject)
  | emit (c : Request)
  | build (c : Request)
  | evict (schema : Option Subject)
  | clear

/-- What a use does, its answer aside. -/
def Use.perform [CharacterNames] (env : Environment) : Use → RegistryM Unit
  | .compile schema => do
    let _ ← RegistryM.compileTree env schema
  | .emit c => do
    let _ ← c.emit env
  | .build c => do
    let _ ← c.build env
  | .evict schema => RegistryM.change fun r => r.evict schema
  | .clear => RegistryM.change Registry.clear

namespace Registry

/-- The registry after uses in order; what has failed leaves what it had changed. -/
def after [CharacterNames] (env : Environment) (r : Registry) (uses : List Use) : Registry :=
  uses.foldl (fun r use => ((use.perform env).run ⟨r, []⟩).2.registry) r

/-- The document that a request is answered with. -/
def emitted (env : Environment) (r : Registry) (c : Request) : Except Failure Value :=
  ((c.emit env).run ⟨r, []⟩).1.map Stored.value

/-- The validator that a request is answered with. -/
def built [CharacterNames] (env : Environment) (r : Registry) (c : Request) :
    Except Failure Wire.Validator :=
  ((c.build env).run ⟨r, []⟩).1.map Stored.value

end Registry

/-- The same document, or the same failure. -/
abbrev SameDocuments := Wire.SameOutcome Wire.SameDocument

abbrev SameValidators := Wire.SameOutcome Wire.SameValidator

namespace Requests

/-- Uses for the requests, and for known schemas. -/
def Admits (p : Requests) : Use → Prop
  | .compile schema => p.Holds schema
  | .emit c => p.Asked c
  | .build c => p.Asked c
  | .evict _ => True
  | .clear => True

/-- After any uses every request is answered as by a fresh registry. -/
structure Transparent [CharacterNames] (env : Environment) (p : Requests) : Prop where
  emitted : ∀ uses, (∀ use ∈ uses, p.Admits use) → ∀ c, p.Asked c →
    SameDocuments ((Registry.after env {} uses).emitted env c) (Registry.emitted env {} c)
  built : ∀ uses, (∀ use ∈ uses, p.Admits use) → ∀ c, p.Asked c →
    SameValidators ((Registry.after env {} uses).built env c) (Registry.built env {} c)

/-- Two requests with one schema and one key, of which the first has a document. -/
structure Clash (env : Environment) (c c' : Request) : Prop where
  schema : c.schema = c'.schema
  key : ∃ key, c.key = .ok key ∧ c'.key = .ok key
  document : ∃ wire, Registry.emitted env {} c = .ok wire

/-- Fresh registries answer two requests alike. -/
structure Alike [CharacterNames] (env : Environment) (c c' : Request) : Prop where
  emitted : SameDocuments (Registry.emitted env {} c) (Registry.emitted env {} c')
  built : SameValidators (Registry.built env {} c) (Registry.built env {} c')

variable {env : Environment} {p : Requests} {r r' : Registry} {c : Request}

open RegistryM

theorem after_cons [CharacterNames] (use : Use) (uses : List Use) (answer : Except Failure Unit)
    (yields : Yields (use.perform env) r answer r') :
    r.after env (use :: uses) = r'.after env uses := by
  obtain ⟨journal, run⟩ := yields []
  show Registry.after env ((use.perform env).run ⟨r, []⟩).2.registry uses = _
  rw [run]

/-- Evicting drops, and changes nothing else. -/
theorem sound_evict [CharacterNames] (sound : r.Sound env p) (schema : Option Subject) :
    (r.evict schema).Sound env p := by
  refine ⟨?_, fun other holds => ?_⟩
  · cases schema with
    | none => exact sound.trees
    | some s =>
      intro t known tree found
      change (r.trees.erase s.handle).get? t.handle = some tree at found
      by_cases same : t.handle = s.handle
      · rw [same, Table.get?_erase_self] at found
        cases found
      · rw [Table.get?_erase_of_ne _ same] at found
        exact sound.trees t known tree found
  · rw [Registry.bucketAt_evict]
    split
    · exact Bucket.sound_empty env p other
    · exact sound.buckets other holds

/-- A request that cannot be read, or has no key, fails in one way always. -/
theorem reads_or_fails [CharacterNames] (env : Environment) (c : Request) :
    (∃ o opts key, c.Reads o opts key) ∨ ∃ e, c.document env = .error e ∧
      ∀ r, Yields (c.emit env) r (.error e) r ∧ Yields (c.build env) r (.error e) r := by
  unfold Request.emit Request.build Request.document
  cases overrides : Overrides.ofValue c.overrides with
  | error e =>
    exact Or.inr ⟨e, rfl, fun r => ⟨Yields.bind_error (Yields.lift rfl), Yields.bind_error (Yields.lift rfl)⟩⟩
  | ok o =>
    cases options : ValidatorOptions.ofValue c.options with
    | error e =>
      exact Or.inr ⟨e, rfl, fun r => ⟨Yields.bind (Yields.lift rfl) (Yields.bind_error (Yields.lift rfl)),
        Yields.bind (Yields.lift rfl) (Yields.bind_error (Yields.lift rfl))⟩⟩
    | ok opts =>
      cases hasKey : o.key opts with
      | error e =>
        refine Or.inr ⟨e, ?_, fun r => ⟨?_, ?_⟩⟩
        · show (o.key opts >>= fun _ => env.derive c.schema o opts.allowUnknown) = _
          rw [hasKey]
          rfl
        · exact Yields.bind (Yields.lift rfl) (Yields.bind (Yields.lift rfl)
            (Yields.bind_error (Yields.lift hasKey)))
        · exact Yields.bind (Yields.lift rfl) (Yields.bind (Yields.lift rfl)
            (Yields.bind_error (Yields.lift hasKey)))
      | ok key => exact Or.inl ⟨o, opts, key, overrides, options, hasKey⟩

theorem emitted_eq {answer : Except Failure (Stored Value)} (yields : Yields (c.emit env) r answer r') :
    r.emitted env c = answer.map Stored.value := by
  obtain ⟨journal, run⟩ := yields []
  rw [Registry.emitted, run]

theorem built_eq [CharacterNames] {answer : Except Failure (Stored Wire.Validator)}
    (yields : Yields (c.build env) r answer r') : r.built env c = answer.map Stored.value := by
  obtain ⟨journal, run⟩ := yields []
  rw [Registry.built, run]

section Reading

variable {o : Overrides} {opts : ValidatorOptions} {key : String}

theorem yields_emit_of_reads (reads : c.Reads o opts key) {answer : Except Failure (Stored Value)}
    (yields : Yields (emit env c.schema o opts) r answer r') : Yields (c.emit env) r answer r' :=
  Yields.bind (Yields.lift reads.overrides) (Yields.bind (Yields.lift reads.options) yields)

theorem yields_build_of_reads [CharacterNames] (reads : c.Reads o opts key)
    {answer : Except Failure (Stored Wire.Validator)}
    (yields : Yields (build env c.schema o opts) r answer r') : Yields (c.build env) r answer r' :=
  Yields.bind (Yields.lift reads.overrides) (Yields.bind (Yields.lift reads.options) yields)

end Reading

theorem yields_discard {α : Type} {x : RegistryM α} {answer : Except Failure α}
    (yields : Yields x r answer r') : ∃ done, Yields (do let _ ← x) r done r' := by
  cases answer with
  | error e => exact ⟨.error e, Yields.bind_error yields⟩
  | ok a => exact ⟨.ok (), Yields.bind yields (Yields.pure ())⟩

/-- **Each use keeps a registry sound.** -/
theorem sound_use [CharacterNames] (sound : r.Sound env p) (use : Use) (admitted : p.Admits use) :
    ∃ answer r', Yields (use.perform env) r answer r' ∧ r'.Sound env p := by
  cases use with
  | compile schema =>
    cases schema with
    | none =>
      cases bound : env.bound with
      | error e =>
        have fails : Yields (compileTree env none) r (.error e) r :=
          Yields.bind_error (Yields.lift bound)
        obtain ⟨done, yields⟩ := yields_discard fails
        exact ⟨done, r, yields, sound⟩
      | ok depth =>
        have makes : Yields (compileTree env none) r _ _ :=
          Yields.bind (Yields.lift bound) (Yields.store Rule.empty)
        obtain ⟨done, yields⟩ := yields_discard makes
        exact ⟨done, _, yields, Sound.of_same sound rfl rfl⟩
    | some s =>
      obtain ⟨answer, r', compiles, sound', _⟩ := yields_compileTree sound (admitted s rfl)
      obtain ⟨done, yields⟩ := yields_discard compiles
      exact ⟨done, r', yields, sound'⟩
  | emit c =>
    rcases reads_or_fails env c with ⟨o, opts, key, reads⟩ | ⟨e, _, fails⟩
    · obtain ⟨answer, r', emits, sound', _⟩ := yields_emit sound (p.known c admitted) reads
      obtain ⟨done, yields⟩ := yields_discard (yields_emit_of_reads reads emits)
      exact ⟨done, r', yields, sound' admitted⟩
    · obtain ⟨done, yields⟩ := yields_discard (fails r).1
      exact ⟨done, r, yields, sound⟩
  | build c =>
    rcases reads_or_fails env c with ⟨o, opts, key, reads⟩ | ⟨e, _, fails⟩
    · obtain ⟨answer, r', builds, sound', _⟩ := yields_build sound (p.known c admitted) reads
      obtain ⟨done, yields⟩ := yields_discard (yields_build_of_reads reads builds)
      exact ⟨done, r', yields, sound' admitted⟩
    · obtain ⟨done, yields⟩ := yields_discard (fails r).2
      exact ⟨done, r, yields, sound⟩
  | evict schema =>
    exact ⟨.ok (), r.evict schema, Yields.change fun r => r.evict schema, sound_evict sound schema⟩
  | clear =>
    exact ⟨.ok (), r.clear, Yields.change Registry.clear, Registry.sound_empty env p r.nextId⟩

/-- **Any uses in any order keep a registry sound.** -/
theorem sound_after [CharacterNames] (uses : List Use) (admitted : ∀ use ∈ uses, p.Admits use)
    (sound : r.Sound env p) : (r.after env uses).Sound env p := by
  induction uses generalizing r with
  | nil => exact sound
  | cons use rest ih =>
    obtain ⟨answer, r', yields, sound'⟩ := sound_use sound use (admitted use List.mem_cons_self)
    rw [after_cons use rest answer yields]
    exact ih (fun later inside => admitted later (List.mem_cons_of_mem _ inside)) sound'

/-- A request whose derivations are there to be served to another. -/
structure Serves (env : Environment) (p : Requests) (c' c : Request) : Prop where
  asked : p.Asked c'
  schema : c'.schema = c.schema
  key : ∃ key, c'.key = .ok key ∧ c.key = .ok key
  document : ∃ wire, c'.document env = .ok wire

/-- A document is what the request derives, or what another one with its schema and key does. -/
theorem emitted_cases [CharacterNames] (sound : r.Sound env p) (holds : p.Holds c.schema) :
    r.emitted env c = c.document env ∨
      ∃ c', Serves env p c' c ∧ r.emitted env c = c'.document env := by
  rcases reads_or_fails env c with ⟨o, opts, key, reads⟩ | ⟨e, fails, always⟩
  · obtain ⟨answer, r', emits, _, _, cases'⟩ := yields_emit sound holds reads
    rw [emitted_eq (yields_emit_of_reads reads emits)]
    rcases cases' with ⟨wire, kept, rfl⟩ | ⟨_, derived⟩
    · obtain ⟨c', asked, here, hasKey, derived⟩ := (sound.buckets c.schema holds).wires key wire kept
      exact Or.inr ⟨c', ⟨asked, here, ⟨key, hasKey, reads.key⟩, ⟨_, derived⟩⟩, derived.symm⟩
    · exact Or.inl derived
  · rw [emitted_eq (always r).1, fails]
    exact Or.inl rfl

theorem validator_of_error [CharacterNames] {e : Failure} (fails : c.document env = .error e) :
    c.validator env = .error e := by
  rw [Request.validator, fails]
  rfl

theorem document_of_validator [CharacterNames] {v : Wire.Validator}
    (derived : c.validator env = .ok v) :
    ∃ wire, c.document env = .ok wire := by
  cases document : c.document env with
  | error e => rw [validator_of_error document] at derived; cases derived
  | ok wire => exact ⟨wire, rfl⟩

theorem built_cases [CharacterNames] (sound : r.Sound env p) (holds : p.Holds c.schema) :
    r.built env c = c.validator env ∨
      ∃ c', Serves env p c' c ∧ r.built env c = c'.validator env := by
  rcases reads_or_fails env c with ⟨o, opts, key, reads⟩ | ⟨e, fails, always⟩
  · obtain ⟨answer, r', builds, _, cases'⟩ := yields_build sound holds reads
    rw [built_eq (yields_build_of_reads reads builds)]
    rcases cases' with ⟨validator, kept, rfl⟩ | ⟨wire, source, compiled⟩
    · obtain ⟨c', asked, here, hasKey, derived⟩ :=
        (sound.buckets c.schema holds).validators key validator kept
      exact Or.inr ⟨c', ⟨asked, here, ⟨key, hasKey, reads.key⟩, document_of_validator derived⟩,
        derived.symm⟩
    · rw [compiled]
      rcases source with ⟨kept, found, rfl⟩ | ⟨_, rfl⟩
      · obtain ⟨c', asked, here, hasKey, derived⟩ := (sound.buckets c.schema holds).wires key kept found
        obtain ⟨o', reads'⟩ := reads.options_eq hasKey
        exact Or.inr ⟨c', ⟨asked, here, ⟨key, hasKey, reads.key⟩, ⟨_, derived⟩⟩,
          (reads'.validator derived).symm⟩
      · refine Or.inl ?_
        cases document : c.document env with
        | error e => exact (validator_of_error document).symm
        | ok wire => exact (reads.validator document).symm
  · rw [built_eq (always r).2, validator_of_error fails]
    exact Or.inl rfl

/-- No requests, and one schema at most. -/
def only (asked : Request → Prop) (schema : Option Subject)
    (here : ∀ c, asked c → c.schema = schema) : Requests where
  Asked := asked
  Known s := schema = some s
  unique _ _ first second _ := Option.some.inj (first.symm.trans second)
  known c isAsked _ same := (here c isAsked).symm.trans same

/-- **A fresh registry answers with the document that the request derives.** -/
theorem emitted_fresh (env : Environment) (c : Request) :
    Registry.emitted env {} c = c.document env := by
  -- Nothing is compiled here, so any names of characters will do.
  let _ := CharacterNames.common
  let nobody := only (fun _ => False) c.schema (fun _ asked => asked.elim)
  have sound := Registry.sound_empty env nobody 0
  have holds : nobody.Holds c.schema := fun _ same => same
  rcases emitted_cases sound holds with same | ⟨c', serves, _⟩
  · exact same
  · exact serves.asked.elim

/-- **A fresh registry answers with the validator that the request derives.** -/
theorem built_fresh [CharacterNames] (env : Environment) (c : Request) :
    Registry.built env {} c = c.validator env := by
  let nobody := only (fun _ => False) c.schema (fun _ asked => asked.elim)
  have sound := Registry.sound_empty env nobody 0
  have holds : nobody.Holds c.schema := fun _ same => same
  rcases built_cases sound holds with same | ⟨c', serves, _⟩
  · exact same
  · exact serves.asked.elim

/-- What a request has left is what the next one with its schema and key is answered with. -/
theorem served_next [CharacterNames] (env : Environment) {c c' : Request} (clash : Clash env c c') :
    (Registry.after env {} [.emit c]).emitted env c' = c.document env ∧
      (Registry.after env {} [.emit c]).built env c' = c.validator env := by
  obtain ⟨key, hasKey, hasKey'⟩ := clash.key
  obtain ⟨document, fresh⟩ := clash.document
  rw [emitted_fresh env c] at fresh
  rcases reads_or_fails env c with ⟨o, opts, key₀, reads⟩ | ⟨e, fails, _⟩
  · obtain rfl : key₀ = key := Except.ok.inj (reads.key.symm.trans hasKey)
    obtain ⟨o', reads'⟩ := reads.options_eq hasKey'
    let itself := only (· = c) c.schema (fun _ same => same ▸ rfl)
    have empty := Registry.sound_empty env itself 0
    obtain ⟨answer, r₁, emits, sound, keeps, _⟩ := yields_emit empty (fun _ same => same) reads
    have answered := (emitted_eq (yields_emit_of_reads reads emits)).symm.trans
      ((emitted_fresh env c).trans fresh)
    cases answer with
    | error e => cases answered
    | ok wire =>
      have value : wire.value = document := Except.ok.inj answered
      have kept := keeps wire rfl
      obtain ⟨done, yields⟩ := yields_discard (yields_emit_of_reads reads emits)
      have registry : Registry.after env {} [.emit c] = r₁ := after_cons (.emit c) [] done yields
      have holds : itself.Holds c'.schema := fun _ same => clash.schema.trans same
      rw [registry]
      rw [clash.schema] at kept
      constructor
      · obtain ⟨answer', r₂, emits', _, _, cases'⟩ := yields_emit (sound rfl) holds reads'
        rw [emitted_eq (yields_emit_of_reads reads' emits')]
        rcases cases' with ⟨wire', kept', rfl⟩ | ⟨missing, _⟩
        · obtain rfl := Option.some.inj (kept.symm.trans kept')
          exact answered.trans fresh.symm
        · rw [kept] at missing
          cases missing
      · obtain ⟨answer', r₂, builds, _, cases'⟩ := yields_build (sound rfl) holds reads'
        rw [built_eq (yields_build_of_reads reads' builds)]
        rcases cases' with ⟨validator, found, rfl⟩ | ⟨wire', source, compiled⟩
        · obtain ⟨c₁, asked, _, _, derived⟩ :=
            ((sound rfl).buckets c'.schema holds).validators _ validator found
          have which : c₁ = c := asked
          rw [which] at derived
          exact derived.symm
        · rw [compiled, reads.validator fresh]
          rcases source with ⟨kept', found, rfl⟩ | ⟨missing, _⟩
          · obtain rfl := Option.some.inj (kept.symm.trans found)
            rw [← value]
            rfl
          · rw [kept] at missing
            cases missing
  · rw [fails] at fresh
    cases fresh

/-- Requests that are never answered differently under one key are answered right in every run. -/
theorem transparent_of_alike [CharacterNames]
    (alike : ∀ c c', p.Asked c → p.Asked c' → Clash env c c' → Alike env c c') :
    p.Transparent env := by
  have served : ∀ c c', p.Asked c → Serves env p c' c → Alike env c' c := by
    intro c c' asked serves
    obtain ⟨wire, derived⟩ := serves.document
    exact alike c' c serves.asked asked
      ⟨serves.schema, serves.key, wire, (emitted_fresh env c').trans derived⟩
  constructor
  · intro uses admitted c asked
    have sound := sound_after uses admitted (Registry.sound_empty env p 0)
    rcases emitted_cases sound (p.known c asked) with same | ⟨c', serves, same⟩
    · rw [same, emitted_fresh env c]
      exact Wire.SameOutcome.refl Wire.SameDocument.refl _
    · rw [same, ← emitted_fresh env c']
      exact (served c c' asked serves).emitted
  · intro uses admitted c asked
    have sound := sound_after uses admitted (Registry.sound_empty env p 0)
    rcases built_cases sound (p.known c asked) with same | ⟨c', serves, same⟩
    · rw [same, built_fresh env c]
      exact Wire.SameOutcome.refl Wire.SameValidator.refl _
    · rw [same, ← built_fresh env c']
      exact (served c c' asked serves).built

/-- **Runs are transparent exactly if requests that share a schema and a key are answered alike.** The
arguments of a request are values: a rule inside a mapping of a definition is read into new nodes, and
no call writes to it (see `Overrides.owned`). -/
theorem transparent_iff [CharacterNames] (env : Environment) (p : Requests) :
    p.Transparent env ↔
      ∀ c c', p.Asked c → p.Asked c' → Clash env c c' → Alike env c c' := by
  constructor
  · intro transparent c c' asked asked' clash
    have admitted : ∀ use ∈ [Use.emit c], p.Admits use := by
      intro use inside
      obtain rfl := List.mem_singleton.1 inside
      exact asked
    obtain ⟨emits, builds⟩ := served_next env clash
    constructor
    · have same := transparent.emitted _ admitted c' asked'
      rwa [emits, ← emitted_fresh env c] at same
    · have same := transparent.built _ admitted c' asked'
      rwa [builds, ← built_fresh env c] at same
  · exact transparent_of_alike

/-- A schema without paths, the only one there is. -/
def emptySchema : Subject := ⟨0, true, .source ⟨0, "DocumentSchema", ""⟩⟩

def oneSchema : Environment := ⟨[.document .null []], .ok 32⟩

/-- An appended object and an appended number below it, in one order or the other. -/
def overlapping (objectFirst : Bool) : Request :=
  let object := ("a", Value.object [("type", .str "object")])
  let number := ("a.b", Value.object [("type", .str "number")])
  ⟨some emptySchema,
    .object [("append", .object (if objectFirst then [object, number] else [number, object]))], .null⟩

/-- Requests that append the two in either order. -/
def eitherOrder : Requests :=
  only (fun c => ∃ objectFirst, c = overlapping objectFirst) (some emptySchema) fun _ asked => by
    obtain ⟨_, rfl⟩ := asked
    rfl

section

attribute [local instance] CharacterNames.common

/-- **A registry is not transparent**: the key forgets the order in which paths are appended, and an
object that is appended after what lies below it takes its place. -/
theorem not_transparent_eitherOrder : ¬eitherOrder.Transparent oneSchema := by
  intro transparent
  have key : ∃ key, (overlapping true).key = .ok key ∧ (overlapping false).key = .ok key := by
    refine ⟨_, rfl, ?_⟩
    decide +kernel
  have first : (overlapping true).document oneSchema = .ok (.object (Wire.objectKeywords false
      [("a", .object (Wire.objectKeywords false [("b", .object [("type", .str "number")])]
        [.str "b"]))] [.str "a"])) := rfl
  have second : (overlapping false).document oneSchema = .ok (.object (Wire.objectKeywords false
      [("a", .object (Wire.objectKeywords false [] []))] [.str "a"])) := rfl
  have clash : Clash oneSchema (overlapping true) (overlapping false) :=
    ⟨rfl, key, _, (emitted_fresh oneSchema (overlapping true)).trans first⟩
  have same := transparent.emitted [.emit (overlapping true)] (by
    intro use inside
    obtain rfl := List.mem_singleton.1 inside
    exact ⟨true, rfl⟩) (overlapping false) ⟨false, rfl⟩
  rw [(served_next oneSchema clash).1, emitted_fresh oneSchema (overlapping false), first,
    second] at same
  cases same with
  | done _ _ same =>
    obtain ⟨_, whole, _, _, keywords, ⟨_, _, keywords', _, properties⟩, _⟩ := same
    cases whole
    cases keywords
    cases keywords'
    obtain ⟨_, _, whole, moved, _, _, rfl, inner, rfl⟩ := properties
    cases whole
    cases List.singleton_perm_singleton.1 moved
    obtain ⟨_, whole, _, _, keywords, ⟨_, _, keywords', _, properties⟩, _⟩ := inner
    cases whole
    cases keywords
    cases keywords'
    obtain ⟨_, _, whole, moved, _, _, rfl, _⟩ := properties
    cases whole
    exact absurd moved.eq_nil (List.cons_ne_nil _ _)

end

end Requests

end ShapeContract
