import ShapeContract.Proofs.Rule.Eased
import ShapeContract.Proofs.Rule.Misses

/-!
# Looking up what is attached

A rule that is attached at a path is found there with all that it has below. On the way to it stand
the nodes that were there, or new objects, which keep all but the one child. What is found at any
other path was found there before: `Rule.attach_attached` has all three. So a node keeps what it says
until a rule is attached at its place or above, and its children are those that it had and those that
the rules attached below bring: `Rule.grows_attachAll`.
-/

set_option autoImplicit false

namespace ShapeContract.Rule

variable {root rule : Rule} {names others more : List String}

@[simp] theorem node?_nil (r : Rule) : r.node? [] = some r := rfl

theorem node?_cons (r : Rule) (name : String) (rest : List String) :
    r.node? (name :: rest) = (r.child? name).bind fun c => c.node? rest := rfl

theorem node?_empty (some : names ≠ []) : empty.node? names = none := by
  obtain ⟨name, rest, rfl⟩ := List.exists_cons_of_ne_nil some
  rfl

theorem child?_putChild_of_ne {name first : String} (ne : name ≠ first) (c : Rule) :
    (root.putChild first c).child? name = root.child? name :=
  Fields.get?_put_of_ne root.kids c ne

/-- What is attached is found at its place, and below it what it has there. -/
theorem node?_attachBelow_append (some : names ≠ []) (more : List String) :
    (root.attachBelow names rule).node? (names ++ more) = rule.node? more := by
  induction names generalizing root with
  | nil => exact absurd rfl some
  | cons name rest ih =>
    by_cases last : rest = []
    · subst last
      change ((root.putChild name rule).child? name).bind _ = _
      rw [child?_putChild]
      rfl
    · rw [attachBelow_cons root rule name last, List.cons_append, node?_cons, child?_putChild,
        Option.bind_some]
      exact ih last

/-- On the way to what is attached stands the node that was there, or a new object. -/
theorem node?_attachBelow_above (deeper : more ≠ []) :
    (root.attachBelow (names ++ more) rule).node? names =
      some (((root.node? names).getD empty).attachBelow more rule) := by
  induction names generalizing root with
  | nil => rfl
  | cons name rest ih =>
    have below : rest ++ more ≠ [] := List.append_ne_nil_of_right_ne_nil rest deeper
    rw [List.cons_append, attachBelow_cons root rule name below, node?_cons, child?_putChild,
      Option.bind_some, ih, node?_cons]
    cases child : root.child? name with
    | some c => rfl
    | none =>
      cases rest with
      | nil => rfl
      | cons next deep => rfl

/-- What is found neither above nor below the place was found before. -/
theorem node?_attachBelow_apart (apart : Incomparable names others) :
    (root.attachBelow names rule).node? others = root.node? others := by
  induction names generalizing root others with
  | nil => exact absurd rfl apart.ne_nil
  | cons first rest ih =>
    cases others with
    | nil => exact absurd rfl apart.symm.ne_nil
    | cons name deep =>
      by_cases same : name = first
      · subst same
        have below := apart.of_cons
        rw [attachBelow_cons root rule name below.ne_nil, node?_cons, child?_putChild,
          Option.bind_some, ih below, node?_cons]
        cases root.child? name with
        | some c => rfl
        | none => exact node?_empty below.symm.ne_nil
      · obtain ⟨c, attached⟩ := exists_putChild_of_attachBelow root rule first rest
        rw [attached, node?_cons, node?_cons, child?_putChild_of_ne same]

/-! ## What attaching does -/

/-- A node on the way to what is attached, before and after: a node that is there keeps all it says
of its own value, its element rule and its children in their order, to which the next name comes last
if it is new; where there was none, an object without facets leads on to the next name alone. -/
inductive Passed (next : String) : Option Rule → Option Rule → Prop
  | kept {node after : Rule} (facets : after.facets = node.facets) (items : after.items = node.items)
      (children : after.children.isSome)
      (order : after.kids.keys =
        if next ∈ node.kids.keys then node.kids.keys else node.kids.keys ++ [next]) :
      Passed next (some node) (some after)
  | made (c : Rule) : Passed next none (some ⟨{ type := .object }, none, some [(next, c)]⟩)

/-- What a tree is after a rule was attached in it below some names. -/
structure Attached (root rule : Rule) (names : List String) (after : Rule) : Prop where
  below : ∀ more, after.node? (names ++ more) = rule.node? more
  apart : ∀ others, Incomparable names others → after.node? others = root.node? others
  passed : ∀ above next rest, names = above ++ next :: rest →
    Passed next (root.node? above) (after.node? above)

theorem passed_attachBelow (node : Option Rule) (next : String) (rest : List String) :
    Passed next node (some ((node.getD empty).attachBelow (next :: rest) rule)) := by
  obtain ⟨c, attached⟩ := exists_putChild_of_attachBelow (node.getD empty) rule next rest
  rw [attached]
  cases node with
  | none => exact .made c
  | some node => exact .kept rfl rfl rfl (Fields.keys_put node.kids next c)

theorem attached_attachBelow (some : names ≠ []) :
    Attached root rule names (root.attachBelow names rule) where
  below := node?_attachBelow_append some
  apart _ := node?_attachBelow_apart
  passed above next rest split := by
    rw [split, node?_attachBelow_above (List.cons_ne_nil next rest)]
    exact passed_attachBelow (root.node? above) next rest

/-- **Attaching at a path writes there and nowhere else.** What is looked up at the path or past it
is what the rule has there; a path that neither leads to it nor on from it finds what it found; and
the nodes on the way, the root among them, are passed. -/
theorem attach_attached (root rule : Rule) (path : String) :
    Attached root rule (segments path) (root.attach path rule) ∧
      (root.attach path rule).node? (segments path) = some rule ∧
      ∀ more, (root.attach path rule).node? (segments (path ++ "." ++ more)) =
        rule.node? (segments more) := by
  have written : Attached root rule (segments path) (root.attach path rule) := by
    rw [attach_eq]
    exact attached_attachBelow (segments_ne_nil path)
  refine ⟨written, ?_, fun more => ?_⟩
  · have here := written.below []
    rwa [List.append_nil] at here
  · rw [segments_append]
    exact written.below (segments more)

/-! ## What grows at a place -/

theorem mem_keys_attachBelow {n : Rule} {first name : String} {rest : List String} :
    name ∈ (n.attachBelow (first :: rest) rule).kids.keys ↔ name ∈ n.kids.keys ∨ name = first := by
  obtain ⟨c, attached⟩ := exists_putChild_of_attachBelow n rule first rest
  rw [attached, kids_putChild, Fields.keys_put]
  split
  next old => exact ⟨.inl, fun inside => inside.elim id fun same => same ▸ old⟩
  next => rw [List.mem_append, List.mem_singleton]

/-- What is at a place after rules have been attached elsewhere, none above: the node that was there,
or a new object if something was attached below, with a child for each path that goes on. -/
structure Grows (names : List String) (leaves : Fields Rule) (before after : Option Rule) : Prop where
  isSome : after.isSome ↔ before.isSome ∨ ∃ e ∈ leaves, names <+: segments e.1
  facets : (after.getD empty).facets = (before.getD empty).facets
  items : (after.getD empty).items = (before.getD empty).items
  children : ∀ name, name ∈ (after.getD empty).kids.keys ↔
    name ∈ (before.getD empty).kids.keys ∨ ∃ e ∈ leaves, names ++ [name] <+: segments e.1

theorem Grows.refl (names : List String) (node : Option Rule) : Grows names [] node node := by
  constructor <;> simp

theorem Grows.trans {leaves later : Fields Rule} {before between after : Option Rule}
    (first : Grows names leaves before between) (second : Grows names later between after) :
    Grows names (leaves ++ later) before after where
  isSome := by
    simp only [second.isSome, first.isSome, List.mem_append, or_and_right, exists_or, or_assoc]
  facets := second.facets.trans first.facets
  items := second.items.trans first.items
  children name := by
    simp only [second.children, first.children, List.mem_append, or_and_right, exists_or, or_assoc]

/-- The step: a rule that is attached below a place, or apart from it. -/
theorem grows_attach {e : String × Rule} (unhidden : ¬ segments e.1 <+: names) (root : Rule) :
    Grows names [e] (root.node? names) ((root.attach e.1 e.2).node? names) := by
  rw [attach_eq]
  by_cases below : names <+: segments e.1
  · obtain ⟨more, path⟩ := below
    cases more with
    | nil => exact absurd (by rw [← path, List.append_nil]) unhidden
    | cons first rest =>
      rw [← path, node?_attachBelow_above (List.cons_ne_nil first rest)]
      obtain ⟨c, attached⟩ :=
        exists_putChild_of_attachBelow ((root.node? names).getD empty) e.2 first rest
      constructor
      · simp [← path]
      · rw [Option.getD_some, attached]
        rfl
      · rw [Option.getD_some, attached]
        rfl
      · intro name
        rw [Option.getD_some, mem_keys_attachBelow]
        simp [← path, List.prefix_append_right_inj, List.cons_prefix_cons]
  · have deeper : ∀ name, ¬ names ++ [name] <+: segments e.1 := fun name leads =>
      below ((List.prefix_append names [name]).trans leads)
    rw [node?_attachBelow_apart ⟨unhidden, below⟩]
    constructor <;> simp [below, deeper]

/-- The run: rules that are attached one after the other, none at the place or above. -/
theorem grows_attachAll {leaves : Fields Rule} (unhidden : ∀ e ∈ leaves, ¬ segments e.1 <+: names)
    (root : Rule) : Grows names leaves (root.node? names)
      ((leaves.foldl (fun root e => root.attach e.1 e.2) root).node? names) := by
  induction leaves generalizing root with
  | nil => exact .refl names _
  | cons e rest ih =>
    obtain ⟨first, others⟩ := List.forall_mem_cons.1 unhidden
    exact (grows_attach first root).trans (ih others _)

end ShapeContract.Rule
