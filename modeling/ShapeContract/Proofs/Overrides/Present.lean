import ShapeContract.Proofs.Fields
import ShapeContract.Proofs.Lists
import ShapeContract.Proofs.Overrides.Sharing
import ShapeContract.Proofs.Overrides.Optional
import ShapeContract.Proofs.Rule.Lookup

/-!
# Appended rules in the adapted tree

Appended rules are attached in order, among the selected leaves of which they may take the place. An
appended rule is found at its path, with more children perhaps, as long as nothing is attached above
it later. What is attached above takes it away, and then what is there is what that one brings, and
what is attached below after it: `Overrides.present_iff`.
-/

set_option autoImplicit false

namespace ShapeContract

namespace Rule

variable {root r : Rule} {names : List String}

/-- A tree has a node at a place that says all that a rule says, and has a child of each name that
the rule has. -/
def Presents (root : Rule) (names : List String) (r : Rule) : Prop :=
  ∃ n, root.node? names = some n ∧ n.facets = r.facets ∧ n.items = r.items ∧
    r.kids.keys ⊆ n.kids.keys

/-- A node, or none, and what is attached below it later, make up for a rule that was there. -/
structure MakesUp (names : List String) (node : Option Rule) (later : Fields Rule) (r : Rule) :
    Prop where
  present : node.isSome ∨ ∃ e ∈ later, names <+: segments e.1
  facets : (node.getD empty).facets = r.facets
  items : (node.getD empty).items = r.items
  children : ∀ name ∈ r.kids.keys,
    name ∈ (node.getD empty).kids.keys ∨ ∃ e ∈ later, names ++ [name] <+: segments e.1

theorem presents_iff_makesUp {node : Option Rule} {leaves : Fields Rule}
    (grows : Grows names leaves node (root.node? names)) :
    root.Presents names r ↔ MakesUp names node leaves r := by
  constructor
  · rintro ⟨n, found, facets, items, children⟩
    have isSome := grows.isSome
    have facets' := grows.facets
    have items' := grows.items
    have children' := grows.children
    rw [found, Option.getD_some] at *
    exact ⟨isSome.1 rfl, facets'.symm.trans facets, items'.symm.trans items,
      fun name inside => (children' name).1 (children inside)⟩
  · rintro ⟨some, facets, items, children⟩
    obtain ⟨n, found⟩ := Option.isSome_iff_exists.1 (grows.isSome.2 some)
    have facets' := grows.facets
    have items' := grows.items
    have children' := grows.children
    rw [found, Option.getD_some] at facets' items' children'
    exact ⟨n, found, facets'.trans facets, items'.trans items,
      fun name inside => (children' name).2 (children name inside)⟩

end Rule

namespace Overrides

open Rule (MakesUp)

variable {leaves before after : Fields Rule} {path : String} {r : Rule}

/-- What is at a path in the end is what the last rule attached at it or above and the rules after
that one leave there. -/
theorem grows_build {names : List String} {e : String × Rule} (above : segments e.1 <+: names)
    (last : ∀ d ∈ after, ¬ segments d.1 <+: names) :
    Rule.Grows names after (e.2.node? (names.drop (segments e.1).length))
      ((build (before ++ e :: after)).node? names) := by
  obtain ⟨more, rfl⟩ := above
  have here (root : Rule) : (root.attach e.1 e.2).node? (segments e.1 ++ more) = e.2.node? more := by
    rw [Rule.attach_eq, Rule.node?_attachBelow_append (segments_ne_nil e.1)]
  have grows := Rule.grows_attachAll last ((build before).attach e.1 e.2)
  rw [here] at grows
  rw [List.drop_left, build, List.foldl_append]
  exact grows

/-- **An attached rule is found in the end** exactly if no rule is attached above it later, or the
last of those makes up for it, with what is attached after that one. -/
theorem presents_build_iff :
    (build (before ++ (path, r) :: after)).Presents (segments path) r ↔
      ∀ mid e later, after = mid ++ e :: later → segments e.1 <+: segments path →
        (∀ d ∈ later, ¬ segments d.1 <+: segments path) →
        MakesUp (segments path) (e.2.node? ((segments path).drop (segments e.1).length)) later r := by
  constructor
  · rintro offered mid e later rfl above last
    have grows := @grows_build (before ++ (path, r) :: mid) later _ e above last
    rw [List.append_assoc, List.cons_append] at grows
    exact (Rule.presents_iff_makesUp grows).1 offered
  · intro madeUp
    rcases exists_last_or (fun d : String × Rule => segments d.1 <+: segments path) after with
      none | ⟨mid, e, later, rfl, above, last⟩
    · have grows := @grows_build before after _ (path, r) (List.prefix_refl _) none
      rw [List.drop_length] at grows
      exact (Rule.presents_iff_makesUp grows).2
        ⟨.inl rfl, rfl, rfl, fun name inside => .inl inside⟩
    · have grows := @grows_build (before ++ (path, r) :: mid) later _ e above last
      rw [List.append_assoc, List.cons_append] at grows
      exact (Rule.presents_iff_makesUp grows).2 (madeUp mid e later rfl above last)

/-- Definitions that can be read are appended as their rules. -/
theorem exists_appendedRules {definitions : Fields Value}
    (readable : ∀ e ∈ definitions, ∃ r, Rule.ofDefinition e.2 = .ok r) :
    ∃ rules, appendedRules definitions = .ok rules ∧
      ∀ e ∈ definitions, ∃ r, Rule.ofDefinition e.2 = .ok r ∧ (e.1, r) ∈ rules := by
  induction definitions with
  | nil => exact ⟨[], rfl, List.forall_mem_nil _⟩
  | cons e rest ih =>
    obtain ⟨⟨r, head⟩, others⟩ := List.forall_mem_cons.1 readable
    obtain ⟨rules, tail, each⟩ := ih others
    refine ⟨(e.1, r) :: rules, ?_, List.forall_mem_cons.2 ⟨⟨r, head, List.mem_cons_self⟩, ?_⟩⟩
    · rw [appendedRules, head, tail]
      rfl
    · intro d inside
      obtain ⟨s, read, among⟩ := each d inside
      exact ⟨s, read, List.mem_cons_of_mem _ among⟩

/-- **Appended paths are present**, unless something is attached above them later. Overrides whose
definitions can be read adapt every tree; and the rule that a definition means is found at its path,
with more children perhaps, exactly if no entry of the adapted leaves that comes after it is above
it, or the last of those, with what is attached below after that, makes up for it. Every definition
is read into nodes of its own, a rule inside a mapping too (see `Overrides.owned`). -/
theorem present_iff {o : Overrides} (checked : o.checkAll = .ok ()) (own : o.appended.keys.Nodup)
    (readable : ∀ e ∈ o.appended, ∃ r, Rule.ofDefinition e.2 = .ok r) (tree : Rule) :
    ∃ adapted, o.apply tree = .ok adapted ∧ ∀ e ∈ o.appended,
      ∃ r before after, Rule.ofDefinition e.2 = .ok r ∧
        o.effective tree = .ok (before ++ (e.1, r) :: after) ∧
        (adapted.Presents (segments e.1) r ↔
          ∀ mid d later, after = mid ++ d :: later → segments d.1 <+: segments e.1 →
            (∀ c ∈ later, ¬ segments c.1 <+: segments e.1) →
            MakesUp (segments e.1) (d.2.node? ((segments e.1).drop (segments d.1).length))
              later r) := by
  obtain ⟨rules, read, each⟩ := exists_appendedRules readable
  have listed := (@effective_ok_iff o tree _).2 ⟨checked, rules, read, rfl⟩
  refine ⟨_, apply_ok_iff.2 ⟨_, listed, rfl⟩, fun e inside => ?_⟩
  obtain ⟨r, meant, among⟩ := each e inside
  have ownRules : rules.keys.Nodup := keys_appendedRules read ▸ own
  obtain ⟨before, after, split⟩ := List.append_of_mem (Fields.mem_putAll_of_mem _ ownRules among)
  rw [split] at listed ⊢
  exact ⟨r, before, after, meant, listed, presents_build_iff⟩

def amount : Value := .object [("type", .str "number")]

def group : Value := .object [("type", .str "object")]

/-- A number in a group, the group appended first. -/
def grouped : Overrides := { appended := [("order", group), ("order.total", amount)] }

theorem present_iff_grouped :
    grouped.checkAll = .ok () ∧ grouped.appended.keys.Nodup ∧
      (∀ e ∈ grouped.appended, ∃ r, Rule.ofDefinition e.2 = .ok r) ∧
      ∃ adapted r, grouped.apply Rule.empty = .ok adapted ∧ Rule.ofDefinition amount = .ok r ∧
        adapted.Presents (segments "order.total") r := by
  have own : grouped.appended.keys.Nodup := by decide
  have readable : ∀ e ∈ grouped.appended, ∃ r, Rule.ofDefinition e.2 = .ok r := by
    simp only [grouped, List.forall_mem_cons]
    exact ⟨⟨_, rfl⟩, ⟨_, rfl⟩, List.forall_mem_nil _⟩
  obtain ⟨adapted, made, each⟩ := present_iff rfl own readable Rule.empty
  obtain ⟨r, before, after, meant, listed, offered⟩ :=
    each ("order.total", amount) (List.mem_cons_of_mem _ List.mem_cons_self)
  have last : after = [] := by
    have leaves : (before ++ ("order.total", r) :: after).keys = ["order", "order.total"] :=
      congrArg (fun outcome => (Except.toOption outcome).elim [] Fields.keys) listed.symm
    rcases before with _ | ⟨b, _ | ⟨c, rest⟩⟩
    · have first : "order.total" = "order" := (List.cons.inj leaves).1
      exact absurd first (by decide)
    · exact List.map_eq_nil_iff.1 (List.cons.inj (List.cons.inj leaves).2).2
    · have more := (List.cons.inj (List.cons.inj leaves).2).2
      exact absurd (List.map_eq_nil_iff.1 more) (by simp)
  refine ⟨rfl, own, readable, adapted, r, made, meant, offered.2 ?_⟩
  rintro mid d later same
  exact absurd (same.symm.trans last)
    (List.append_ne_nil_of_right_ne_nil mid (List.cons_ne_nil d later))

/-- The same two definitions, the group appended last. -/
def regrouped : Overrides := { appended := [("order.total", amount), ("order", group)] }

/-- A group that is appended after what lies below it takes that away. -/
theorem not_present_regrouped :
    ∃ adapted r, regrouped.apply Rule.empty = .ok adapted ∧ ("order.total", amount) ∈ regrouped.appended ∧
      Rule.ofDefinition amount = .ok r ∧ ¬ adapted.Presents (segments "order.total") r := by
  refine ⟨_, _, rfl, List.mem_cons_self, rfl, ?_⟩
  rintro ⟨n, found, -⟩
  have gone : ∀ m, (some m : Option Rule) ≠ none := fun m same => nomatch same
  exact gone n (found.symm.trans rfl)

end Overrides

end ShapeContract
