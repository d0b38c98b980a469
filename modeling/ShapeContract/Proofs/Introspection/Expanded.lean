import Mathlib.Data.Multiset.Bind
import ShapeContract.Proofs.Introspection.Lifted
import ShapeContract.Proofs.Introspection.Visit
import ShapeContract.Proofs.Lists
import ShapeContract.Proofs.Rule.Gathered
import ShapeContract.Proofs.Rule.Dotless

/-!
# Introspection keeps the declared paths

A definition declares dotted paths, introspection makes a tree of them, and flattening lists the
leaves of the tree by path. When no declared path leads to another, and none of an embedded schema
either, the three compose: the leaves are at the declared paths, with those of an embedded schema
below its own path, and each has the rule of its descriptor: `Introspection.flatten_introspect`.
The order of the leaves may be another, as paths with one first segment come together in the tree.
-/

set_option autoImplicit false

namespace ShapeContract.Introspection

open Rule (leavesOf leavesUnder leavesAt Vacant FieldsWellNamed)

/-! ## Embedded schemas -/

/-- The paths of an embedded schema, if it is a document or a block. -/
def pathsOf? (catalog : Catalog) : Target → Option (Fields Descriptor)
  | .block paths => some paths
  | .value (.source r) =>
    match catalog.source? r with
    | some (.document _ paths) => some paths
    | _ => none
  | .value _ => none

/-- The paths of a descriptor's embedded schema; none if it has no such schema. -/
def embedded (catalog : Catalog) (d : Descriptor) : Fields Descriptor :=
  ((Target.of? d).bind (pathsOf? catalog)).getD []

/-- Declared paths, with those of an embedded schema that has any in place of its own. -/
def expanded (catalog : Catalog) : Nat → Fields Descriptor → Fields Descriptor
  | 0, _ => []
  | levels + 1, paths => paths.flatMap fun e =>
    if (embedded catalog e.2).isEmpty then [e]
    else (expanded catalog levels (embedded catalog e.2)).map fun q => (e.1 ++ "." ++ q.1, q.2)

/-- Paths of segments that are not empty, none of which is a proper beginning of another, and the
same of embedded schemas. -/
def Apart (catalog : Catalog) : Nat → Fields Descriptor → Prop
  | 0, _ => True
  | levels + 1, paths =>
    (∀ e ∈ paths, "" ∉ segments e.1) ∧
    (∀ e ∈ paths, ∀ d ∈ paths, segments e.1 <+: segments d.1 → segments e.1 = segments d.1) ∧
    ∀ e ∈ paths, Apart catalog levels (embedded catalog e.2)

instance decidableApart (catalog : Catalog) : ∀ (levels : Nat) (paths : Fields Descriptor),
    Decidable (Apart catalog levels paths)
  | 0, _ => inferInstanceAs (Decidable True)
  | levels + 1, _ =>
    have := decidableApart catalog levels
    inferInstanceAs (Decidable (_ ∧ _ ∧ _))

/-- A schema that declarations can embed: a document that calls of `add` have built, or a block. -/
inductive Subschema (catalog : Catalog) : Target → Fields Descriptor → Prop
  | block (paths : Fields Descriptor) : Subschema catalog (.block paths) paths
  | document {r : SourceRef} {name : Value} (calls : List (String × Value))
    (source : catalog.source? r = some (.document name (Document.added calls))) :
    Subschema catalog (.value (.source r)) (Document.added calls)

/-- Descriptors with well-formed options whose embedded schemas, also those of array elements, nest
within some levels. -/
def Nests (catalog : Catalog) : Nat → Fields Descriptor → Prop
  | 0, _ => False
  | levels + 1, paths => ∀ e ∈ paths, e.2.WellFormed ∧
    ∀ target, target ∈ Target.of? e.2 ∨ target ∈ e.2.caster.bind Target.of? →
      ∃ sub, Subschema catalog target sub ∧ Nests catalog levels sub

/-- The rule of a descriptor: the type of its kind, the facets of its options, and of its elements
those of theirs. -/
structure Lifted (d : Descriptor) (r : Rule) : Prop where
  kind : mapKind d.kind = .ok r.type
  facets : r.facets = fieldFacets r.type d.opts
  items : r.items.map Rule.facets = d.caster.map fun c => elementFacets c.type c.opts

variable {catalog : Catalog} {bound : Int} {levels : Nat} {target : Target}
  {paths sub : Fields Descriptor} {d : Descriptor}

theorem entries_of_subschema (schema : Subschema catalog target sub) :
    target.entries catalog = .ok (sub.map fun e => (e.1, .ok e.2)) := by
  cases schema with
  | block => rfl
  | document calls source => simp [Target.entries, source, Source.entries?]

theorem pathsOf?_of_subschema (schema : Subschema catalog target sub) :
    pathsOf? catalog target = some sub := by
  cases schema with
  | block => rfl
  | document calls source => simp [pathsOf?, source]

/-- The paths of an embedded schema have names of their own and descriptors that are made. -/
theorem listed_subschema (made : d.Made)
    (embeds : target ∈ Target.of? d ∨ target ∈ d.caster.bind Target.of?)
    (schema : Subschema catalog target sub) : sub.keys.Nodup ∧ ∀ e ∈ sub, e.2.Made := by
  cases schema with
  | document calls source => exact Document.listed_added calls
  | block =>
    have listed {d : Descriptor} (made : d.Made) (embeds : Target.of? d = some (.block sub)) :
        sub.keys.Nodup ∧ ∀ e ∈ sub, e.2.Made := by
      cases made with
      | plain => cases embeds
      | array => cases embeds
      | embedded => cases embeds
      | block options own made =>
        cases embeds
        exact ⟨own, made⟩
    rcases embeds with embeds | embeds
    · exact listed made embeds
    · obtain ⟨c, element, embeds⟩ := Option.bind_eq_some_iff.1 embeds
      exact listed (made.type_of_caster element).2 embeds

/-! ## The tree of some paths -/

/-- A leaf at a declared path, with the rule of its descriptor. -/
def Describes (leaf : List String × Rule) (e : String × Descriptor) : Prop :=
  leaf.1 = segments e.1 ∧ Lifted e.2 leaf.2

/-- The children of the tree of some paths. When the paths are apart, their leaves are at the expanded
paths. -/
structure Unfolds (catalog : Catalog) (levels : Nat) (paths : Fields Descriptor)
    (kids : Fields Rule) : Prop where
  nil : kids = [] ↔ paths = []
  named : Apart catalog levels paths → FieldsWellNamed kids
  leaves : Apart catalog levels paths →
    Multiset.Rel Describes (leavesOf kids) (expanded catalog levels paths)

theorem unfolds_nil (catalog : Catalog) (levels : Nat) : Unfolds catalog levels [] [] where
  nil := iff_of_true rfl rfl
  named _ := trivial
  leaves _ := by
    cases levels <;> exact Multiset.Rel.zero

/-- The rule that introspection makes of a descriptor. -/
structure RuleOf (catalog : Catalog) (levels : Nat) (d : Descriptor) (r : Rule) : Prop where
  lifted : Lifted d r
  isObject : embedded catalog d ≠ [] → r.type = .object
  kids : Unfolds catalog levels (embedded catalog d) r.kids

/-- What is introspected below a descriptor unfolds to the children of its rule. -/
theorem unfolds_childrenOf {descend : Target → Traced Rule}
    (below : ∀ target, Target.of? d = some target → ∃ sub tree, Subschema catalog target sub ∧
      (descend target).outcome = .ok tree ∧ Unfolds catalog levels sub tree.kids) :
    ∃ children, childrenOf descend d = .ok children ∧
      Unfolds catalog levels (embedded catalog d) (children.getD []) := by
  unfold childrenOf embedded
  cases embeds : Target.of? d with
  | none =>
    have none : (Rule.bare d.type).children.getD [] = [] := by
      cases d.type <;> rfl
    refine ⟨_, rfl, ?_⟩
    rw [none]
    exact unfolds_nil catalog levels
  | some target =>
    obtain ⟨sub, tree, schema, read, unfolds⟩ := below target embeds
    refine ⟨tree.children, ?_, ?_⟩
    · simp only [read, Except.map]
    · rw [Option.bind_some, pathsOf?_of_subschema schema]
      exact unfolds

/-- **The rule of a descriptor**, when what is embedded in it unfolds. -/
theorem ruleOf_of_unfolds {descend : Target → Traced Rule} (made : d.Made)
    (wellFormed : d.WellFormed)
    (below : ∀ target, target ∈ Target.of? d ∨ target ∈ d.caster.bind Target.of? →
      ∃ sub tree, Subschema catalog target sub ∧ (descend target).outcome = .ok tree ∧
        Unfolds catalog levels sub tree.kids) :
    ∃ r, (ruleOf descend d).outcome = .ok r ∧ RuleOf catalog levels d r := by
  obtain ⟨children, read, unfolds⟩ :=
    unfolds_childrenOf fun target embeds => below target (.inl embeds)
  have elements : ∃ items, itemsOf descend d = .ok items ∧
      items.map Rule.facets = d.caster.map fun c => elementFacets c.type c.opts := by
    unfold itemsOf
    cases element : d.caster with
    | none => exact ⟨none, rfl, rfl⟩
    | some c =>
      have inner (target : Target) (embeds : Target.of? c = some target) :=
        below target (.inr (by rw [element]; exact embeds))
      obtain ⟨children, read, -⟩ := unfolds_childrenOf inner
      refine ⟨some ⟨elementFacets c.type c.opts, none, children⟩, ?_, rfl⟩
      simp only [read, Except.map]
  obtain ⟨items, readItems, facets⟩ := elements
  refine ⟨⟨fieldFacets d.type d.opts, items, children⟩, ?_, ?_, ?_, unfolds⟩
  · rw [outcome_ruleOf made wellFormed, readItems, read]
    rfl
  · exact ⟨made.mapKind_eq, rfl, facets⟩
  · intro some
    cases embeds : Target.of? d with
    | none =>
      rw [embedded, embeds] at some
      exact absurd rfl some
    | some target => exact made.type_of_target embeds

/-! ## Attaching the rules -/

/-- The leaves of a rule at a path, by what its descriptor declares. -/
theorem describes_leavesAt {path : String} {r : Rule} (made : RuleOf catalog levels d r)
    (apart : Apart catalog levels (embedded catalog d)) :
    Multiset.Rel Describes (leavesAt (segments path) r)
      (if (embedded catalog d).isEmpty then [(path, d)]
        else (expanded catalog levels (embedded catalog d)).map
          fun q => (path ++ "." ++ q.1, q.2) : Fields Descriptor) := by
  split
  next none =>
    have leaf : ¬ r.Inner := fun inner => inner.2 (made.kids.nil.2 (List.isEmpty_iff.1 none))
    rw [leavesAt, Rule.leavesUnder_of_not_inner leaf]
    refine .cons ⟨?_, made.lifted⟩ .zero
    simp
  next some =>
    have some : embedded catalog d ≠ [] := fun none => some (List.isEmpty_iff.2 none)
    have inner : r.Inner := ⟨made.isObject some, mt made.kids.nil.1 some⟩
    rw [leavesAt, Rule.leavesUnder_of_inner inner, ← Multiset.map_coe, ← Multiset.map_coe,
      Multiset.rel_map]
    refine (made.kids.leaves apart).mono fun leaf _ e _ describes => ⟨?_, describes.2⟩
    rw [describes.1, segments_append]

theorem rel_of_forall₂ {α β : Type} {P : α → β → Prop} {as : List α} {bs : List β}
    (each : List.Forall₂ P as bs) : Multiset.Rel P as bs := by
  induction each with
  | nil => exact .zero
  | cons here _ ih => exact .cons here ih

/-- Different paths that are apart do not lead to one another. -/
theorem pairwise_incomparable (own : paths.keys.Nodup)
    (apart : ∀ e ∈ paths, ∀ d ∈ paths, segments e.1 <+: segments d.1 → segments e.1 = segments d.1) :
    paths.keys.Pairwise fun p q => Incomparable (segments p) (segments q) := by
  have leads : ∀ p ∈ paths.keys, ∀ q ∈ paths.keys, segments p <+: segments q → p = q := by
    intro p first q second leads
    obtain ⟨e, inE, rfl⟩ := List.mem_map.1 first
    obtain ⟨d, inD, rfl⟩ := List.mem_map.1 second
    rw [← join_segments e.1, ← join_segments d.1, apart e inE d inD leads]
  refine own.imp_of_mem fun first second ne => ?_
  exact ⟨fun down => ne (leads _ first _ second down),
    fun up => ne (leads _ second _ first up).symm⟩

/-- **The step**: the rules of paths, attached in order, unfold them. -/
theorem unfolds_attachAll {rules : Fields Rule} (own : paths.keys.Nodup)
    (each : List.Forall₂ (fun r e => r.1 = e.1 ∧ RuleOf catalog levels e.2 r.2) rules paths) :
    Unfolds catalog (levels + 1) paths
      (rules.foldl (fun tree e => tree.attach e.1 e.2) Rule.empty).kids := by
  have related := rel_of_forall₂ each
  refine ⟨?_, fun apart => ?_, fun apart => ?_⟩
  · rw [Rule.kids_attachAll, ← List.length_eq_zero_iff, each.length_eq, List.length_eq_zero_iff]
  · obtain ⟨some, -, below⟩ := apart
    refine Rule.fieldsWellNamed_kids (Rule.WellNamed.attachAll (fun r inside => ?_) trivial)
    obtain ⟨e, inE, same, made⟩ := Multiset.exists_mem_of_rel_of_mem related inside
    refine ⟨Rule.wellNamed_of_kids (made.kids.named (below e inE)), fun name segment => ⟨?_, ?_⟩⟩
    · rintro rfl
      exact some e inE (same ▸ segment)
    · exact dot_notMem_segments segment
  · obtain ⟨-, different, below⟩ := apart
    have keys : rules.keys = paths.keys :=
      List.forall₂_eq_eq_eq ▸ List.forall₂_map_left_iff.2 (List.forall₂_map_right_iff.2
        (each.imp fun _ _ here => here.1))
    have apart : rules.Pairwise fun r s => Incomparable (segments r.1) (segments s.1) := by
      have apart := pairwise_incomparable own different
      rw [← keys] at apart
      exact (List.pairwise_map (f := Prod.fst)).1 apart
    have gathered := Rule.perm_attachAll apart fun r _ => Rule.vacant_empty (segments_ne_nil r.1)
    rw [show leavesOf Rule.empty.kids = [] from rfl, List.nil_append] at gathered
    rw [Multiset.coe_eq_coe.2 gathered, expanded, ← Multiset.coe_bind, ← Multiset.coe_bind]
    refine Multiset.rel_bind ?_ (related.mono fun r _ e inE made => And.intro made (below e inE))
    -- The leaves of each rule are those that its own declaration expands to.
    rintro ⟨_, r⟩ ⟨path, d⟩ ⟨⟨rfl, made⟩, apart⟩
    exact describes_leavesAt made apart

/-- The run: a schema whose embedded ones nest within the levels unfolds. -/
theorem unfolds_walk (catalog : Catalog) (bound : Int) (levels : Nat) :
    ∀ (depth : Nat) (path : String) {target : Target} {paths : Fields Descriptor},
      Subschema catalog target paths → paths.keys.Nodup → (∀ e ∈ paths, e.2.Made) →
      Nests catalog levels paths →
      ∃ tree, (walk catalog bound depth path levels target).outcome = .ok tree ∧
        Unfolds catalog levels paths tree.kids := by
  induction levels with
  | zero => exact fun _ _ _ _ _ _ _ nests => nests.elim
  | succ levels ih =>
    intro depth path target paths schema own made nests
    let descend (name : String) := walk catalog bound (depth + 1) (path ++ name ++ ".") levels
    have each : ∀ e ∈ paths, ∃ r : String × Rule, r.1 = e.1 ∧
        (ruleOf (descend e.1) e.2).outcome = .ok r.2 ∧ RuleOf catalog levels e.2 r.2 := by
      intro e inside
      obtain ⟨wellFormed, nests⟩ := nests e inside
      have below (target : Target)
          (embeds : target ∈ Target.of? e.2 ∨ target ∈ e.2.caster.bind Target.of?) :
          ∃ sub tree, Subschema catalog target sub ∧ (descend e.1 target).outcome = .ok tree ∧
            Unfolds catalog levels sub tree.kids := by
        obtain ⟨sub, schema, nests⟩ := nests target embeds
        have listed := listed_subschema (made e inside) embeds schema
        obtain ⟨tree, read, unfolds⟩ := ih (depth + 1) _ schema listed.1 listed.2 nests
        exact ⟨sub, tree, schema, read, unfolds⟩
      obtain ⟨r, read, ruled⟩ := ruleOf_of_unfolds (made e inside) wellFormed below
      exact ⟨(e.1, r), rfl, read, ruled⟩
    obtain ⟨rules, each⟩ := exists_forall₂ each
    refine ⟨_, ?_, unfolds_attachAll own (each.flip.imp fun _ _ here => ⟨here.1, here.2.2⟩)⟩
    rw [walk_succ, entries_of_subschema schema]
    exact outcome_visitAll depth target descend
      (each.flip.imp fun _ _ here => ⟨here.1, here.2.1⟩)

/-- **Introspection loses no declared path and invents none.** Flattened, the tree of a document has
the expanded paths as keys, each once, and at each of them the rule of its descriptor. -/
theorem flatten_introspect {r : SourceRef} {name : Value} {calls : List (String × Value)}
    (source : catalog.source? r = some (.document name (Document.added calls)))
    (nests : Nests catalog (bound + 1).toNat (Document.declared calls))
    (apart : Apart catalog (bound + 1).toNat (Document.declared calls)) :
    ∃ tree, (introspect catalog bound (.source r)).outcome = .ok tree ∧
      (tree.flatten "").keys.Perm
        (expanded catalog (bound + 1).toNat (Document.declared calls)).keys ∧
      ∀ e ∈ expanded catalog (bound + 1).toNat (Document.declared calls),
        ∃ rule, (tree.flatten "").get? e.1 = some rule ∧ Lifted e.2 rule := by
  rw [← Document.added_eq] at nests apart ⊢
  obtain ⟨own, made⟩ := Document.listed_added calls
  obtain ⟨tree, read, unfolds⟩ :=
    unfolds_walk catalog bound _ 0 "" (.document calls source) own made nests
  have named := unfolds.named apart
  have leaves := unfolds.leaves apart
  have path {leaf : List String × Rule} {e : String × Descriptor} (inside : leaf ∈ leavesOf tree.kids)
      (describes : Describes leaf e) : dotted "" leaf.1 = e.1 := by
    rw [describes.1]
    refine dotted_segments_of_head fun head => ?_
    have segment := List.mem_of_mem_head? head
    rw [← describes.1] at segment
    exact (Rule.leavesOf_segments _ named leaf inside "" segment).1 rfl
  have flat := Rule.flatten_eq (Rule.wellNamed_of_kids named)
  refine ⟨tree, read, ?_, fun e inside => ?_⟩
  · rw [flat, Fields.keys, Fields.keys, List.map_map, ← Multiset.coe_eq_coe, ← Multiset.map_coe,
      ← Multiset.map_coe]
    refine Multiset.rel_eq.1 (Multiset.rel_map.2 ?_)
    exact leaves.mono fun leaf inside e _ describes => path inside describes
  · obtain ⟨leaf, inLeaves, describes⟩ :=
      Multiset.exists_mem_of_rel_of_mem (Multiset.rel_flip.2 leaves) inside
    refine ⟨leaf.2, ?_, describes.2⟩
    have listed : (e.1, leaf.2) ∈ tree.flatten "" := by
      rw [← path inLeaves describes, flat]
      exact List.mem_map_of_mem (f := fun e => (dotted "" e.1, e.2)) inLeaves
    have own : (tree.flatten "").keys.Nodup := @Fields.nodup_keys_putAll _ [] List.nodup_nil _
    exact (Fields.get?_eq_some_iff own _ _).2 listed

/-- A schema that is embedded in another. -/
def homeCalls : List (String × Value) := [("", .object [("zip", .native .text)])]

/-- Two calls that declare paths below one first segment, with another path between them. -/
def userCalls : List (String × Value) :=
  [("", .object [("address", .object [("street", .native .text)]), ("age", .native .integer)]),
    ("address.", .object [("home", .source ⟨0, "DocumentSchema", "Home"⟩)])]

def userCatalog : Catalog :=
  [.document (.str "Home") (Document.added homeCalls),
    .document (.str "User") (Document.added userCalls)]

theorem nests_userCatalog :
    Nests userCatalog (32 + 1 : Int).toNat (Document.declared userCalls) := by
  have plain (kind : SchemaKind) (schema : Option Value) :
      Descriptor.WellFormed { kind := .str kind.text, options := .object [], schema := schema } :=
    Descriptor.wellFormed_of_optionless rfl nofun
  intro e inside
  rcases List.mem_cons.1 inside with rfl | inside
  · refine ⟨plain .string none, ?_⟩
    rintro target (embeds | embeds) <;> cases embeds
  rcases List.mem_cons.1 inside with rfl | inside
  · refine ⟨plain .number none, ?_⟩
    rintro target (embeds | embeds) <;> cases embeds
  obtain rfl := List.mem_singleton.1 inside
  refine ⟨plain .embedded _, ?_⟩
  rintro target (embeds | embeds)
  · cases embeds
    refine ⟨_, .document homeCalls rfl, ?_⟩
    intro e inside
    obtain rfl := List.mem_singleton.1 inside
    refine ⟨plain .string none, ?_⟩
    rintro target (embeds | embeds) <;> cases embeds
  · cases embeds

theorem flatten_introspect_user : ∃ tree,
    (introspect userCatalog 32 (.source ⟨1, "DocumentSchema", "User"⟩)).outcome = .ok tree ∧
      (tree.flatten "").keys.Perm ["address.street", "age", "address.home.zip"] := by
  have source : userCatalog.source? ⟨1, "DocumentSchema", "User"⟩ =
      some (.document (.str "User") (Document.added userCalls)) := rfl
  obtain ⟨tree, read, keys, -⟩ := flatten_introspect source nests_userCatalog (by decide +kernel)
  exact ⟨tree, read, keys⟩

end ShapeContract.Introspection
