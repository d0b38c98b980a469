import ShapeContract.Proofs.Rule.Rebuild

/-!
# Paths that lead out of a tree

A tree misses a path if some object on the way has no child of the next name. Attaching a rule at a
path apart from it, neither above nor below, leaves it missed; and the paths of the leaves of a tree
are apart from each other.
-/

set_option autoImplicit false

namespace ShapeContract

/-- Neither of two paths leads to the other. -/
def Incomparable (names others : List String) : Prop := ¬ names <+: others ∧ ¬ others <+: names

instance (names others : List String) : Decidable (Incomparable names others) :=
  inferInstanceAs (Decidable (_ ∧ _))

namespace Incomparable

variable {name : String} {names others : List String}

theorem ne_nil (apart : Incomparable names others) : names ≠ [] := by
  rintro rfl
  exact apart.1 List.nil_prefix

theorem symm (apart : Incomparable names others) : Incomparable others names := ⟨apart.2, apart.1⟩

theorem of_cons (apart : Incomparable (name :: names) (name :: others)) :
    Incomparable names others := by
  constructor
  · intro leads
    exact apart.1 (List.cons_prefix_cons.2 ⟨rfl, leads⟩)
  · intro leads
    exact apart.2 (List.cons_prefix_cons.2 ⟨rfl, leads⟩)

end Incomparable

theorem segments_ne_nil (path : String) : segments path ≠ [] := by
  simp [segments, Text.split, Text.pieces]

namespace Rule

/-- Following the names through objects, some child is not there. -/
def Misses : List String → Rule → Prop
  | [], _ => False
  | name :: rest, r => r.type = .object ∧ ∀ c, r.child? name = some c → Misses rest c

theorem misses_empty {names : List String} (some : names ≠ []) : Misses names empty := by
  obtain ⟨name, rest, rfl⟩ := List.exists_cons_of_ne_nil some
  constructor
  · rfl
  · intro c child
    cases child

/-- Of a node only the type and the children count. -/
theorem misses_root {names : List String} {r : Rule} (misses : Misses names r) :
    Misses names ⟨empty.facets, none, some r.kids⟩ := by
  cases names with
  | nil => exact misses.elim
  | cons name rest => exact ⟨rfl, misses.2⟩

theorem misses_putChild_of_ne {name other : String} {rest : List String} {r c : Rule}
    (ne : name ≠ other) (misses : Misses (name :: rest) r) :
    Misses (name :: rest) (r.putChild other c) := by
  constructor
  · exact misses.1
  · intro d child
    apply misses.2
    rw [← child]
    exact (Fields.get?_put_of_ne r.kids c ne).symm

theorem misses_putChild_self {name : String} {rest : List String} {r c : Rule}
    (object : r.type = .object) (deep : Misses rest c) :
    Misses (name :: rest) (r.putChild name c) := by
  constructor
  · exact object
  · intro d child
    rw [child?_putChild] at child
    cases child
    exact deep

theorem exists_putChild_of_attachBelow (root rule : Rule) (first : String) (rest : List String) :
    ∃ c, root.attachBelow (first :: rest) rule = root.putChild first c := by
  cases rest with
  | nil => exact ⟨rule, rfl⟩
  | cons next rest => exact ⟨_, rfl⟩

/-- The step: what is attached apart from a missed path does not lead to it. -/
theorem misses_attachBelow {names others : List String} (apart : Incomparable names others)
    {root : Rule} (misses : Misses names root) (rule : Rule) :
    Misses names (root.attachBelow others rule) := by
  induction others generalizing names root with
  | nil => exact absurd rfl apart.symm.ne_nil
  | cons first more ih =>
    cases names with
    | nil => exact misses.elim
    | cons name rest =>
      by_cases same : name = first
      · subst same
        have below := apart.of_cons
        rw [attachBelow_cons root rule name below.symm.ne_nil]
        refine misses_putChild_self misses.1 (ih below ?_)
        cases child : root.child? name with
        | none => exact misses_empty below.ne_nil
        | some c => exact misses.2 c child
      · obtain ⟨c, attached⟩ := exists_putChild_of_attachBelow root rule first more
        rw [attached]
        exact misses_putChild_of_ne same misses

theorem attach_eq (root : Rule) (path : String) (rule : Rule) :
    root.attach path rule = root.attachBelow (segments path) rule := by
  unfold attach attachBelow
  cases segments path <;> rfl

/-- The run: rules attached one after the other, all apart from the path. -/
theorem misses_attachAll {names : List String} (leaves : Fields Rule)
    (apart : ∀ e ∈ leaves, Incomparable names (segments e.1)) {root : Rule}
    (misses : Misses names root) :
    Misses names (leaves.foldl (fun root e => root.attach e.1 e.2) root) := by
  induction leaves generalizing root with
  | nil => exact misses
  | cons e rest ih =>
    rw [List.foldl_cons]
    apply ih
    · intro d later
      exact apart d (List.mem_cons_of_mem _ later)
    · rw [attach_eq]
      exact misses_attachBelow (apart e List.mem_cons_self) misses e.2

mutual

/-- No leaf of some children lies below another. -/
theorem eq_of_leavesOf_leads : ∀ cs : List (String × Rule), FieldsWellNamed cs →
    ∀ e ∈ leavesOf cs, ∀ d ∈ leavesOf cs, e.1 <+: d.1 → e.1 = d.1
  | [], _ => fun e member => nomatch member
  | (name, c) :: rest, named => by
    intro e first d second leads
    rw [leavesOf, List.mem_append, List.mem_map] at first second
    rcases first with ⟨e, first, rfl⟩ | first <;> rcases second with ⟨d, second, rfl⟩ | second
    · have below := (List.cons_prefix_cons.1 leads).2
      exact congrArg (name :: ·)
        (eq_of_leavesUnder_leads c named.2.2.1 e first d second below)
    · obtain ⟨other, known, head⟩ := head?_leavesOf rest d second
      obtain ⟨more, whole⟩ := leads
      rw [← whole] at head
      cases head
      exact absurd known named.2.1
    · obtain ⟨other, known, head⟩ := head?_leavesOf rest e first
      obtain ⟨tail, whole⟩ := List.head?_eq_some_iff.1 head
      rw [whole] at leads
      obtain ⟨rfl, -⟩ := List.cons_prefix_cons.1 leads
      exact absurd known named.2.1
    · exact eq_of_leavesOf_leads rest named.2.2.2 e first d second leads

theorem eq_of_leavesUnder_leads : ∀ c : Rule, c.WellNamed →
    ∀ e ∈ leavesUnder c, ∀ d ∈ leavesUnder c, e.1 <+: d.1 → e.1 = d.1
  | ⟨f, items, none⟩, _ => by simp [leavesUnder]
  | ⟨f, items, some cs⟩, named => by
    unfold leavesUnder
    split
    · exact eq_of_leavesOf_leads cs named
    · simp

end

/-- **Two leaves of a tree are apart.** -/
theorem incomparable_of_flatten {r : Rule} (named : r.WellNamed) {path other : String} {c d : Rule}
    (first : (path, c) ∈ r.flatten "") (second : (other, d) ∈ r.flatten "") (ne : path ≠ other) :
    Incomparable (segments path) (segments other) := by
  have kids := fieldsWellNamed_kids named
  rw [flatten_eq named] at first second
  obtain ⟨e, inE, here⟩ := List.mem_map.1 first
  obtain ⟨g, inG, there⟩ := List.mem_map.1 second
  cases here
  cases there
  rw [segments_dotted (leavesOf_segments _ kids e inE) (leavesOf_deep _ e inE),
    segments_dotted (leavesOf_segments _ kids g inG) (leavesOf_deep _ g inG)]
  constructor
  · intro leads
    exact ne (congrArg (dotted "") (eq_of_leavesOf_leads _ kids e inE g inG leads))
  · intro leads
    exact ne (congrArg (dotted "") (eq_of_leavesOf_leads _ kids g inG e inE leads).symm)

end Rule

end ShapeContract
