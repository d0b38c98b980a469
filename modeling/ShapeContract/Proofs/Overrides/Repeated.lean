import ShapeContract.Proofs.Overrides.Present
import ShapeContract.Proofs.Overrides.Selection
import ShapeContract.Proofs.Overrides.Settled
import ShapeContract.Proofs.Overrides.Unflagged

/-!
# Overrides applied twice

The second time that overrides are applied, the list has the rules of the first time, and before
them what the appended ones have been expanded to, which they are then written over. So the tree
stays as it is, up to the order of children: `Overrides.apply_again`.
-/

set_option autoImplicit false

namespace ShapeContract

namespace Overrides

/-! ## The list of a run -/

/-- The rules at their paths that an adapted tree is built from. -/
def listing (o : Overrides) (rules : Fields Rule) (tree : Rule) : Fields Rule :=
  (o.selectLeaves (tree.flatten "")).putAll rules

/-- Overrides whose appended paths are apart from each other and from the leaves of a tree, where
all names are segments, each used once. -/
structure Repeatable (o : Overrides) (tree : Rule) : Prop where
  named : tree.WellNamed
  own : o.appended.keys.Nodup
  filled : ∀ path ∈ o.appended.keys, ∀ name ∈ segments path, name ≠ ""
  definitions : ∀ e ∈ o.appended, ∀ r, Rule.ofDefinition e.2 = .ok r → r.WellNamed
  apart : ∀ path ∈ o.appended.keys, ∀ other,
    other ∈ o.appended.keys ∨ other ∈ (tree.flatten "").keys → path ≠ other →
      Incomparable (segments path) (segments other)

variable {o : Overrides} {tree : Rule} {rules leaves : Fields Rule} {e : String × Rule}

theorem forall₂_appendedRules {definitions : Fields Value} :
    appendedRules definitions = .ok rules ↔
      List.Forall₂ (fun d e => d.1 = e.1 ∧ Rule.ofDefinition d.2 = .ok e.2) definitions rules := by
  induction definitions generalizing rules with
  | nil => simp [appendedRules, eq_comm]
  | cons d rest ih =>
    obtain ⟨path, v⟩ := d
    simp only [appendedRules, Rule.bind_ok_iff, List.forall₂_cons_left_iff, ← ih]
    constructor
    · rintro ⟨r, here, rs, later, ⟨⟩⟩
      exact ⟨(path, r), rs, ⟨rfl, here⟩, later, rfl⟩
    · rintro ⟨⟨_, r⟩, rs, ⟨rfl, here⟩, later, rfl⟩
      exact ⟨r, here, rs, later, rfl⟩

theorem adjust_adjust (o : Overrides) (path : String) (r : Rule) :
    o.adjust path (o.adjust path r) = o.adjust path r := by
  unfold adjust
  split
  · rfl
  · split <;> rfl

theorem mem_selectLeaves_iff :
    e ∈ o.selectLeaves leaves ↔
      ∃ r, (e.1, r) ∈ leaves ∧ o.keeps e.1 = true ∧ e.2 = o.adjust e.1 r := by
  constructor
  · intro inside
    obtain ⟨⟨path, r⟩, stays, rfl⟩ := List.mem_map.1 inside
    obtain ⟨listed, kept⟩ := List.mem_filter.1 stays
    exact ⟨r, listed, kept, rfl⟩
  · rintro ⟨r, listed, kept, same⟩
    exact List.mem_map.2 ⟨(e.1, r), List.mem_filter.2 ⟨listed, kept⟩, Prod.ext rfl same.symm⟩

theorem nodup_keys_selectLeaves (o : Overrides) (tree : Rule) :
    (o.selectLeaves (tree.flatten "")).keys.Nodup := by
  have none : (Fields.keys ([] : Fields Rule)).Nodup := List.nodup_nil
  have own : (tree.flatten "").keys.Nodup := Fields.nodup_keys_putAll none _
  have paths : (o.selectLeaves (tree.flatten "")).keys =
      ((tree.flatten "").filter fun e => o.keeps e.1).map Prod.fst := by
    simp [selectLeaves, Fields.keys, Function.comp_def]
  rw [paths]
  exact (List.filter_sublist.map Prod.fst).nodup own

/-- The paths of the leaves of a tree, as the names that lead to them. -/
theorem mem_flatten_iff (named : tree.WellNamed) :
    e ∈ tree.flatten "" ↔ (segments e.1, e.2) ∈ Rule.leavesOf tree.kids := by
  have kids := Rule.fieldsWellNamed_kids named
  have cut : ∀ d ∈ Rule.leavesOf tree.kids, segments (dotted "" d.1) = d.1 := fun d inside =>
    segments_dotted (Rule.leavesOf_segments _ kids d inside) (Rule.leavesOf_deep _ d inside)
  rw [Rule.flatten_eq named, List.mem_map]
  constructor
  · rintro ⟨d, inside, rfl⟩
    rwa [cut d inside]
  · intro inside
    exact ⟨_, inside, Prod.ext (eq_of_segments (cut _ inside)) rfl⟩

section Runs

variable (fits : Repeatable o tree) (read : appendedRules o.appended = .ok rules)

include fits read

theorem nodup_keys_rules : rules.keys.Nodup := keys_appendedRules read ▸ fits.own

theorem mem_listing_iff (t : Rule) :
    e ∈ listing o rules t ↔
      (e ∈ o.selectLeaves (t.flatten "") ∧ e.1 ∉ rules.keys) ∨ e ∈ rules :=
  Fields.mem_putAll_iff (nodup_keys_selectLeaves o t) (nodup_keys_rules fits read)

/-- Leaves of a tree of good names and appended rules have good names, at good paths. -/
theorem named_listing {t : Rule} (named : t.WellNamed) (inside : e ∈ listing o rules t) :
    e.2.WellNamed ∧ ∀ name ∈ segments e.1, IsSegment name := by
  rcases (mem_listing_iff fits read t).1 inside with ⟨selected, -⟩ | appended
  · obtain ⟨r, listed, -, same⟩ := mem_selectLeaves_iff.1 selected
    have kids := Rule.fieldsWellNamed_kids named
    have leaf := (mem_flatten_iff named).1 listed
    rw [same]
    exact ⟨wellNamed_adjust (Rule.wellNamed_leavesOf _ kids _ leaf),
      Rule.leavesOf_segments _ kids _ leaf⟩
  · obtain ⟨d, inside, path, meant⟩ :=
      exists_of_forall₂ (forall₂_appendedRules.1 read).flip appended
    refine ⟨fits.definitions d inside e.2 meant, fun name among => ?_⟩
    refine isSegment_of_mem_segments among (fits.filled d.1 (List.mem_map_of_mem inside) name ?_)
    rwa [path]

theorem wellNamed_build {t : Rule} (named : t.WellNamed) : (build (listing o rules t)).WellNamed :=
  Rule.WellNamed.attachAll (fun _ inside => named_listing fits read named inside) trivial

theorem apart_listing {d : String × Rule} (here : e ∈ listing o rules tree)
    (there : d ∈ listing o rules tree) (differ : e ≠ d) :
    Incomparable (segments e.1) (segments d.1) := by
  have paths : e.1 ≠ d.1 := fun same => differ <| List.inj_on_of_nodup_map
    (Fields.nodup_keys_putAll (nodup_keys_selectLeaves o tree) rules) here there same
  have appended : ∀ c ∈ rules, c.1 ∈ o.appended.keys := fun c inside =>
    keys_appendedRules read ▸ List.mem_map_of_mem inside
  have selected : ∀ c ∈ o.selectLeaves (tree.flatten ""), ∃ r, (c.1, r) ∈ tree.flatten "" :=
    fun c inside => (mem_selectLeaves_iff.1 inside).imp fun _ listed => listed.1
  rcases (mem_listing_iff fits read tree).1 here with ⟨first, -⟩ | first <;>
    rcases (mem_listing_iff fits read tree).1 there with ⟨second, -⟩ | second
  · obtain ⟨r, listed⟩ := selected e first
    obtain ⟨s, listed'⟩ := selected d second
    exact Rule.incomparable_of_flatten fits.named listed listed' paths
  · obtain ⟨r, listed⟩ := selected e first
    have leaf : e.1 ∈ (tree.flatten "").keys := List.mem_map.2 ⟨_, listed, rfl⟩
    exact (fits.apart d.1 (appended d second) e.1 (.inr leaf) paths.symm).symm
  · obtain ⟨s, listed⟩ := selected d second
    have leaf : d.1 ∈ (tree.flatten "").keys := List.mem_map.2 ⟨_, listed, rfl⟩
    exact fits.apart e.1 (appended e first) d.1 (.inr leaf) paths
  · exact fits.apart e.1 (appended e first) d.1 (.inl (appended d second)) paths

/-- The leaves of the adapted tree are those of the rules, each below its path. -/
theorem mem_leavesOf_build {names : List String} {c : Rule} :
    (names, c) ∈ Rule.leavesOf (build (listing o rules tree)).kids ↔
      ∃ e ∈ listing o rules tree, ∃ more,
        names = segments e.1 ++ more ∧ (more, c) ∈ Rule.leavesUnder e.2 := by
  have distinct := Fields.nodup_keys_putAll (nodup_keys_selectLeaves o tree) rules
  have apart : (listing o rules tree).Pairwise fun e d =>
      Incomparable (segments e.1) (segments d.1) :=
    (List.pairwise_map.1 distinct).imp_of_mem fun here there differ =>
      apart_listing fits read here there fun same => differ (congrArg Prod.fst same)
  have vacant : ∀ e ∈ listing o rules tree, Rule.Vacant (segments e.1) Rule.empty :=
    fun e _ => Rule.vacant_empty (segments_ne_nil e.1)
  refine (Rule.perm_attachAll apart vacant).mem_iff.trans ?_
  have none : Rule.leavesOf Rule.empty.kids = [] := rfl
  rw [none, List.nil_append, List.mem_flatMap]
  refine exists_congr fun e => and_congr_right fun _ => ?_
  rw [Rule.leavesAt, List.mem_map]
  constructor
  · rintro ⟨d, under, ⟨⟩⟩
    exact ⟨d.1, rfl, under⟩
  · rintro ⟨more, rfl, under⟩
    exact ⟨(more, c), under, rfl⟩

theorem settles_first : Settles (listing o rules tree) (listing o rules tree) where
  apart _ here _ there differ := apart_listing fits read here there differ
  among := List.Subset.refl _
  hidden before d after split := by
    left
    rw [split]
    simp

/-- A selected leaf is selected again, as it is. -/
theorem mem_second_of_selected (selected : e ∈ o.selectLeaves (tree.flatten ""))
    (inside : e ∈ listing o rules tree) :
    e ∈ o.selectLeaves ((build (listing o rules tree)).flatten "") := by
  obtain ⟨r, listed, kept, same⟩ := mem_selectLeaves_iff.1 selected
  have atomic : ¬ e.2.Inner := same ▸ not_inner_adjust (Rule.not_inner_flatten listed)
  refine mem_selectLeaves_iff.2 ⟨e.2, ?_, kept, ?_⟩
  · rw [mem_flatten_iff (wellNamed_build fits read fits.named), mem_leavesOf_build fits read]
    refine ⟨e, inside, [], (List.append_nil _).symm, ?_⟩
    rw [Rule.leavesUnder_of_not_inner atomic]
    exact List.mem_singleton_self _
  · rw [same, adjust_adjust]

/-- What is selected the second time and not appended was there the first time, or it is of an
appended rule that has leaves below. -/
theorem selected_second {d : String × Rule}
    (selected : d ∈ o.selectLeaves ((build (listing o rules tree)).flatten ""))
    (unwritten : d.1 ∉ rules.keys) :
    d ∈ listing o rules tree ∨
      ∃ e ∈ rules, segments e.1 <+: segments d.1 ∧
        e.1 ∉ (o.selectLeaves ((build (listing o rules tree)).flatten "")).keys := by
  have named := wellNamed_build fits read fits.named
  obtain ⟨s, listed, -, same⟩ := mem_selectLeaves_iff.1 selected
  have leaf := (mem_flatten_iff named).1 listed
  obtain ⟨e, inside, more, path, under⟩ := (mem_leavesOf_build fits read).1 leaf
  rcases (mem_listing_iff fits read tree).1 inside with ⟨first, -⟩ | rule
  · left
    obtain ⟨r, old, -, adjusted⟩ := mem_selectLeaves_iff.1 first
    have atomic : ¬ e.2.Inner := adjusted ▸ not_inner_adjust (Rule.not_inner_flatten old)
    rw [Rule.leavesUnder_of_not_inner atomic] at under
    cases List.mem_singleton.1 under
    have here : d.1 = e.1 := eq_of_segments (path.trans (List.append_nil _))
    have again : o.adjust e.1 e.2 = e.2 := by rw [adjusted, adjust_adjust]
    rw [here, again] at same
    rwa [Prod.ext here same]
  · refine .inr ⟨e, rule, ⟨more, path.symm⟩, fun again => ?_⟩
    obtain ⟨c, selected', here⟩ := List.mem_map.1 again
    obtain ⟨r, old, -, -⟩ := mem_selectLeaves_iff.1 selected'
    have differ : c.1 ≠ d.1 := fun there =>
      unwritten (there ▸ here ▸ List.mem_map_of_mem rule)
    have apart := Rule.incomparable_of_flatten named old listed differ
    exact apart.1 (here ▸ ⟨more, path.symm⟩)

theorem settles_second :
    Settles (listing o rules tree) (listing o rules (build (listing o rules tree))) where
  apart _ here _ there differ := apart_listing fits read here there differ
  among := by
    intro e inside
    refine (mem_listing_iff fits read _).2 ?_
    refine ((mem_listing_iff fits read tree).1 inside).imp_left fun ⟨selected, unwritten⟩ => ?_
    exact ⟨mem_second_of_selected fits read selected inside, unwritten⟩
  hidden before d after split := by
    have inside : d ∈ listing o rules (build (listing o rules tree)) := by simp [split]
    rcases (mem_listing_iff fits read _).1 inside with ⟨selected, unwritten⟩ | appended
    · refine (selected_second fits read selected unwritten).imp_right ?_
      rintro ⟨e, rule, covers, fresh⟩
      refine ⟨e, ?_, (mem_listing_iff fits read tree).2 (.inr rule), covers⟩
      -- The appended rule has no leaf at its own path, so it is written at the end.
      have turns := @Fields.old_before_new _ _ rules
        (nodup_keys_selectLeaves o (build (listing o rules tree)))
      have there : e ∈ before ++ d :: after :=
        split ▸ (mem_listing_iff fits read _).2 (.inr rule)
      have old : d.1 ∈ (o.selectLeaves ((build (listing o rules tree)).flatten "")).keys :=
        List.mem_map_of_mem selected
      change (listing o rules _).Pairwise _ at turns
      rw [split, List.pairwise_append] at turns
      rcases List.mem_append.1 there with earlier | later
      · exact absurd (turns.2.2 e earlier d List.mem_cons_self old) fresh
      · rcases List.mem_cons.1 later with rfl | later
        · exact absurd old fresh
        · exact later
    · exact .inl ((mem_listing_iff fits read tree).2 (.inr appended))

theorem reordered_second :
    Rule.Reordered (build (listing o rules (build (listing o rules tree))))
      (build (listing o rules tree)) := by
  have named := wellNamed_build fits read fits.named
  exact Rule.reordered_of_samePlaces (wellNamed_build fits read named) named
    (samePlaces_build (settles_second fits read) (settles_first fits read))

end Runs

/-- **Applying overrides twice is applying them once**, up to the order of children at each node,
where appended paths are apart from each other and from the leaves of the tree. Both runs succeed
exactly if the path lists can be looked up and the definitions can be read. -/
theorem apply_again (fits : Repeatable o tree) :
    ((∃ once, o.apply tree = .ok once) ↔
      o.checkAll = .ok () ∧ ∀ e ∈ o.appended, ∃ r, Rule.ofDefinition e.2 = .ok r) ∧
    ∀ once, o.apply tree = .ok once →
      ∃ twice, o.apply once = .ok twice ∧ Rule.Reordered twice once := by
  refine ⟨⟨?_, ?_⟩, ?_⟩
  · rintro ⟨once, made⟩
    obtain ⟨leaves, listed, -⟩ := apply_ok_iff.1 made
    obtain ⟨checked, rules, read, -⟩ := effective_ok_iff.1 listed
    refine ⟨checked, fun e inside => ?_⟩
    obtain ⟨d, -, -, meant⟩ := exists_of_forall₂ (forall₂_appendedRules.1 read) inside
    exact ⟨d.2, meant⟩
  · rintro ⟨checked, readable⟩
    obtain ⟨rules, read, -⟩ := exists_appendedRules readable
    exact ⟨_, apply_ok_iff.2 ⟨_, effective_ok_iff.2 ⟨checked, rules, read, rfl⟩, rfl⟩⟩
  · intro once made
    obtain ⟨_, listed, rfl⟩ := apply_ok_iff.1 made
    obtain ⟨checked, rules, read, rfl⟩ := effective_ok_iff.1 listed
    refine ⟨_, apply_ok_iff.2 ⟨_, effective_ok_iff.2 ⟨checked, rules, read, rfl⟩, rfl⟩, ?_⟩
    exact reordered_second fits read

/-- A place with two coordinates. -/
def place : Value :=
  .object [("type", .str "object"), ("children", .object
    [("lat", .object [("type", .str "number")]), ("lng", .object [("type", .str "number")])])]

/-- Two leaves are included, one of which is only appended, and so are a place and another leaf. -/
def located : Overrides where
  included := [.str "address.zip", .str "tag"]
  required := [.str "tag"]
  optional := [.str "geo.lat", .str "address.zip"]
  appended := [("geo", place), ("tag", .object [])]

theorem repeatable_located : Repeatable located account where
  named := wellNamed_account
  own := by decide
  filled := by decide +kernel
  definitions := by
    intro e inside r meant
    simp only [located, List.mem_cons, List.not_mem_nil, or_false] at inside
    rcases inside with rfl | rfl <;> cases meant
    · have lat : IsSegment "lat" := by decide
      have lng : IsSegment "lng" := by decide
      have differ : "lat" ∉ ["lng"] := by decide
      exact ⟨lat, differ, trivial, lng, List.not_mem_nil, trivial, trivial⟩
    · trivial
  apart := by
    have apart : ∀ path ∈ located.appended.keys,
        ∀ other ∈ located.appended.keys ++ (account.flatten "").keys, path ≠ other →
          Incomparable (segments path) (segments other) := by decide +kernel
    exact fun path inside other known => apart path inside other (List.mem_append.2 known)

/-- The names below the root of a tree that has been made. -/
def namesOf (outcome : Except Failure Rule) : Option (List String) :=
  outcome.toOption.map fun tree => tree.kids.keys

/-- The second time the place comes last, since its leaves are not included. -/
theorem apply_again_located :
    Repeatable located account ∧ ∃ once twice, located.apply account = .ok once ∧
      located.apply once = .ok twice ∧ Rule.Reordered twice once ∧
      once.kids.keys = ["address", "geo", "tag"] ∧ twice.kids.keys = ["address", "tag", "geo"] := by
  have first : namesOf (located.apply account) = some ["address", "geo", "tag"] := by
    decide +kernel
  have second : namesOf (located.apply account >>= located.apply) =
      some ["address", "tag", "geo"] := by decide +kernel
  obtain ⟨succeeds, again⟩ := apply_again repeatable_located
  have readable : ∀ e ∈ located.appended, ∃ r, Rule.ofDefinition e.2 = .ok r := by
    simp only [located, List.forall_mem_cons]
    exact ⟨⟨_, rfl⟩, ⟨_, rfl⟩, List.forall_mem_nil _⟩
  obtain ⟨once, made⟩ := succeeds.2 ⟨by decide, readable⟩
  obtain ⟨twice, remade, same⟩ := again once made
  have step : (Except.ok once >>= located.apply) = located.apply once := rfl
  rw [made, step, remade] at second
  rw [made] at first
  exact ⟨repeatable_located, once, twice, made, remade, same, Option.some.inj first,
    Option.some.inj second⟩

end Overrides

end ShapeContract
