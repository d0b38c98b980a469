import ShapeContract.Proofs.Lists
import ShapeContract.Proofs.Overrides.Neutral
import ShapeContract.Proofs.Rule.Reordered

/-!
# What counts of a list of rules

A tree is built from a list of rules with paths, one written after the other. Of such a list only
those count that nothing is written over later. Where these are apart from each other, they alone
decide what is built, up to the order of children: `Overrides.samePlaces_build`.
-/

set_option autoImplicit false

namespace ShapeContract

namespace Rule

variable {root rule : Rule} {names : List String}

theorem node?_attachAll_apart {leaves : Fields Rule}
    (apart : ∀ e ∈ leaves, Incomparable (segments e.1) names) (root : Rule) :
    (leaves.foldl (fun root e => root.attach e.1 e.2) root).node? names = root.node? names := by
  induction leaves generalizing root with
  | nil => rfl
  | cons e rest ih =>
    obtain ⟨first, others⟩ := List.forall_mem_cons.1 apart
    rw [List.foldl_cons, ih others, attach_eq, node?_attachBelow_apart first]

/-- At a place that nothing is attached at or above a node can have children, if there is one. -/
theorem children_attachAll {leaves : Fields Rule}
    (unhidden : ∀ e ∈ leaves, ¬ segments e.1 <+: names)
    (before : ∀ n, root.node? names = some n → n.children ≠ none) :
    ∀ n, (leaves.foldl (fun root e => root.attach e.1 e.2) root).node? names = some n →
      n.children ≠ none := by
  induction leaves generalizing root with
  | nil => exact before
  | cons e rest ih =>
    obtain ⟨first, others⟩ := List.forall_mem_cons.1 unhidden
    have step : ∀ n, (root.attach e.1 e.2).node? names = some n → n.children ≠ none := by
      intro n found
      rw [attach_eq] at found
      by_cases below : names <+: segments e.1
      · obtain ⟨more, path⟩ := below
        cases more with
        | nil => exact absurd (by rw [← path, List.append_nil]) first
        | cons next deep =>
          rw [← path, node?_attachBelow_above (List.cons_ne_nil next deep)] at found
          obtain ⟨c, attached⟩ :=
            exists_putChild_of_attachBelow ((root.node? names).getD empty) e.2 next deep
          rw [attached] at found
          cases found
          exact Option.some_ne_none _
      · rw [node?_attachBelow_apart ⟨first, below⟩] at found
        exact before n found
    exact ih others step

end Rule

namespace Overrides

open Rule (Grows SameNode SamePlaces)

/-- Rules of a list, apart from each other, such that each other one is written over later. -/
structure Settles (rules leaves : Fields Rule) : Prop where
  apart : ∀ e ∈ rules, ∀ d ∈ rules, e ≠ d → Incomparable (segments e.1) (segments d.1)
  among : rules ⊆ leaves
  hidden : ∀ before d after, leaves = before ++ d :: after →
    d ∈ rules ∨ ∃ e ∈ after, e ∈ rules ∧ segments e.1 <+: segments d.1

namespace Settles

variable {rules leaves : Fields Rule} {names : List String} {e d : String × Rule}

theorem covered (settles : Settles rules leaves) (inside : d ∈ leaves) :
    ∃ e ∈ rules, segments e.1 <+: segments d.1 := by
  obtain ⟨before, after, split⟩ := List.append_of_mem inside
  rcases settles.hidden before d after split with here | ⟨e, -, rule, covers⟩
  · exact ⟨d, here, List.prefix_refl _⟩
  · exact ⟨e, rule, covers⟩

/-- Only one of the rules is at a place or above it. -/
theorem eq_of_above (settles : Settles rules leaves) (here : e ∈ rules) (there : d ∈ rules)
    (above : segments e.1 <+: names) (above' : segments d.1 <+: names) : e = d := by
  by_contra differ
  have apart := settles.apart e here d there differ
  exact (List.prefix_or_prefix_of_prefix above above').elim apart.1 apart.2

/-- At the place of a rule and below stands what the rule has there. -/
theorem node?_below (settles : Settles rules leaves) (inside : e ∈ rules) (more : List String) :
    (build leaves).node? (segments e.1 ++ more) = e.2.node? more := by
  have here : segments e.1 <+: segments e.1 ++ more := List.prefix_append _ _
  rcases exists_last_or (fun d : String × Rule => segments d.1 <+: segments e.1 ++ more) leaves with
    none | ⟨before, d, after, rfl, above, last⟩
  · exact absurd here (none e (settles.among inside))
  · -- The last entry above the place is the rule itself, and no later one is below.
    obtain rfl : e = d := by
      rcases settles.hidden before d after rfl with rule | ⟨c, later, -, covers⟩
      · exact settles.eq_of_above inside rule here above
      · exact absurd (covers.trans above) (last c later)
    have apart : ∀ c ∈ after, Incomparable (segments c.1) (segments e.1 ++ more) := by
      refine fun c later => ⟨last c later, fun below => ?_⟩
      have under : segments e.1 <+: segments c.1 := here.trans below
      obtain ⟨between, rest, rfl⟩ := List.append_of_mem later
      rcases settles.hidden (before ++ e :: between) c rest (by simp) with
        rule | ⟨b, after, rule, covers⟩
      · obtain rfl := settles.eq_of_above inside rule under (List.prefix_refl _)
        exact last e later here
      · obtain rfl := settles.eq_of_above inside rule under covers
        exact last e (by simp [after]) here
    have built : build (before ++ e :: after) =
        after.foldl (fun root e => root.attach e.1 e.2) ((build before).attach e.1 e.2) := by
      rw [build, List.foldl_append]
      rfl
    rw [built, Rule.node?_attachAll_apart apart, Rule.attach_eq,
      Rule.node?_attachBelow_append (segments_ne_nil e.1)]

/-- What leads to an entry leads to a rule, unless a rule is above. -/
theorem leads_iff (settles : Settles rules leaves)
    (only : ∀ e ∈ rules, segments e.1 <+: names → names <+: segments e.1) :
    (∃ d ∈ leaves, names <+: segments d.1) ↔ ∃ e ∈ rules, names <+: segments e.1 := by
  constructor
  · rintro ⟨d, inside, leads⟩
    obtain ⟨e, rule, covers⟩ := settles.covered inside
    exact ⟨e, rule, (List.prefix_or_prefix_of_prefix leads covers).elim id (only e rule)⟩
  · rintro ⟨e, rule, leads⟩
    exact ⟨e, settles.among rule, leads⟩

theorem unhidden (settles : Settles rules leaves) (clear : ∀ e ∈ rules, ¬ segments e.1 <+: names) :
    ∀ d ∈ leaves, ¬ segments d.1 <+: names := by
  intro d inside above
  obtain ⟨e, rule, covers⟩ := settles.covered inside
  exact clear e rule (covers.trans above)

/-- At a place with no rule above stands what the rules below make there. -/
theorem grows (settles : Settles rules leaves) (clear : ∀ e ∈ rules, ¬ segments e.1 <+: names) :
    Grows names rules (Rule.empty.node? names) ((build leaves).node? names) := by
  obtain ⟨isSome, facets, items, children⟩ :=
    Rule.grows_attachAll (settles.unhidden clear) Rule.empty
  refine ⟨?_, facets, items, fun name => ?_⟩
  · refine isSome.trans (or_congr_right (settles.leads_iff fun e rule above => ?_))
    exact absurd above (clear e rule)
  · refine (children name).trans (or_congr_right (settles.leads_iff fun e rule above => ?_))
    rcases List.prefix_concat_iff.1 above with same | above
    · rw [same]
    · exact absurd above (clear e rule)

theorem children_ne_none (settles : Settles rules leaves)
    (clear : ∀ e ∈ rules, ¬ segments e.1 <+: names) {n : Rule}
    (found : (build leaves).node? names = some n) : n.children ≠ none := by
  refine Rule.children_attachAll (settles.unhidden clear) (fun m there => ?_) n found
  cases names with
  | nil =>
    cases there
    exact Option.some_ne_none _
  | cons name rest => cases there

end Settles

variable {rules leaves others : Fields Rule}

/-- **What counts of a list decides what is built of it**, up to the order of children. -/
theorem samePlaces_build (settles : Settles rules leaves) (settles' : Settles rules others) :
    SamePlaces (build leaves) (build others) := by
  intro names
  by_cases above : ∃ e ∈ rules, segments e.1 <+: names
  · obtain ⟨e, rule, more, rfl⟩ := above
    rw [settles.node?_below rule, settles'.node?_below rule]
    cases e.2.node? more with
    | none => exact .none
    | some n => exact .some (.refl n)
  · have clear : ∀ e ∈ rules, ¬ segments e.1 <+: names := by simpa using above
    have grows := settles.grows clear
    have grows' := settles'.grows clear
    have isSome := grows.isSome.trans grows'.isSome.symm
    cases here : (build leaves).node? names with
    | none =>
      cases there : (build others).node? names with
      | none => exact .none
      | some m =>
        rw [here, there] at isSome
        cases isSome.2 rfl
    | some n =>
      cases there : (build others).node? names with
      | none =>
        rw [here, there] at isSome
        cases isSome.1 rfl
      | some m =>
        rw [here] at grows
        rw [there] at grows'
        refine .some ⟨grows.facets.trans grows'.facets.symm, grows.items.trans grows'.items.symm,
          iff_of_false (settles.children_ne_none clear here) (settles'.children_ne_none clear there),
          fun name => (grows.children name).trans (grows'.children name).symm⟩

end Overrides

end ShapeContract
