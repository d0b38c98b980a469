import ShapeContract.Proofs.Rule.Placed

/-!
# Rules at paths that are apart

Rules that are attached at paths of which none leads to another do not write over each other, and
none of them comes to stand below another. So the leaves of the tree that comes out are those of the
rules, each below its path: `Rule.perm_attachAll`. Only their order is that of the tree.
-/

set_option autoImplicit false

namespace ShapeContract.Rule

variable {root rule : Rule} {name : String} {names others : List String}

/-- Following the names through objects with children, some child is not there. -/
def Vacant : List String → Rule → Prop
  | [], _ => False
  | name :: rest, r =>
    r.type = .object ∧ ∀ c, r.child? name = some c → c.kids ≠ [] ∧ Vacant rest c

theorem vacant_empty (some : names ≠ []) : Vacant names empty := by
  obtain ⟨name, rest, rfl⟩ := List.exists_cons_of_ne_nil some
  exact ⟨rfl, fun _ child => nomatch child⟩

theorem inner_attachBelow (isObject : root.type = .object) (some : names ≠ []) (rule : Rule) :
    (root.attachBelow names rule).Inner := by
  obtain ⟨first, rest, rfl⟩ := List.exists_cons_of_ne_nil some
  refine ⟨?_, kids_attachAt_ne_nil root first rest rule⟩
  change (root.attachAt first rest rule).facets.type = _
  rwa [facets_attachAt]

/-! ## What stays vacant -/

/-- The step: what is attached apart from a vacant place leaves it vacant. -/
theorem vacant_attachBelow (apart : Incomparable names others) (vacant : Vacant names root)
    (rule : Rule) : Vacant names (root.attachBelow others rule) := by
  induction others generalizing names root with
  | nil => exact absurd rfl apart.symm.ne_nil
  | cons first more ih =>
    cases names with
    | nil => exact vacant.elim
    | cons name rest =>
      -- Only below one first name do the two meet.
      by_cases same : name = first
      · subst same
        have below := apart.of_cons
        rw [attachBelow_cons root rule name below.symm.ne_nil]
        refine ⟨vacant.1, fun d child => ?_⟩
        rw [child?_putChild] at child
        obtain rfl := Option.some.inj child
        have start : ((root.child? name).getD empty).type = .object ∧
            Vacant rest ((root.child? name).getD empty) := by
          cases child : root.child? name with
          | none => exact ⟨rfl, vacant_empty below.ne_nil⟩
          | some c =>
            have inside := (vacant.2 c child).2
            obtain ⟨_, _, rfl⟩ := List.exists_cons_of_ne_nil below.ne_nil
            exact ⟨inside.1, inside⟩
        exact ⟨(inner_attachBelow start.1 below.symm.ne_nil rule).2, ih below start.2⟩
      · obtain ⟨c, attached⟩ := exists_putChild_of_attachBelow root rule first more
        rw [attached]
        refine ⟨vacant.1, fun d child => vacant.2 d (Eq.trans ?_ child)⟩
        exact (Fields.get?_put_of_ne root.kids c same).symm

/-! ## Leaves -/

/-- The leaves below a new child come last. -/
theorem leavesOf_put_of_none {cs : Fields Rule} (missing : cs.get? name = none) (c : Rule) :
    leavesOf (cs.put name c) = leavesOf cs ++ (leavesUnder c).map fun e => (name :: e.1, e.2) := by
  induction cs with
  | nil => simp [Fields.put, leavesOf]
  | cons e rest ih =>
    obtain ⟨other, d⟩ := e
    rw [Fields.get?_cons] at missing
    split at missing
    · cases missing
    next elsewhere =>
      rw [Fields.put, if_neg elsewhere, leavesOf, leavesOf, ih missing, List.append_assoc]

/-- The leaves below another child of one name come in the same place. -/
theorem leavesOf_put_of_child {cs : Fields Rule} {c : Rule} (child : cs.get? name = some c) :
    ∃ before after,
      leavesOf cs = before ++ ((leavesUnder c).map fun e => (name :: e.1, e.2)) ++ after ∧
      ∀ d, leavesOf (cs.put name d) =
        before ++ ((leavesUnder d).map fun e => (name :: e.1, e.2)) ++ after := by
  induction cs with
  | nil => cases child
  | cons e rest ih =>
    obtain ⟨other, d⟩ := e
    rw [Fields.get?_cons] at child
    split at child
    next here =>
      obtain rfl := Option.some.inj child
      refine ⟨[], leavesOf rest, by rw [leavesOf, here]; rfl, fun d => ?_⟩
      rw [Fields.put, if_pos here, leavesOf, here]
      rfl
    next elsewhere =>
      obtain ⟨before, after, same, put⟩ := ih child
      refine ⟨((leavesUnder d).map fun e => (other :: e.1, e.2)) ++ before, after, ?_, fun d' => ?_⟩
      · rw [leavesOf, same]
        simp only [List.append_assoc]
      · rw [Fields.put, if_neg elsewhere, leavesOf, put]
        simp only [List.append_assoc]

/-- A rule's leaves below a sequence of names. -/
def leavesAt (names : List String) (rule : Rule) : List (List String × Rule) :=
  (leavesUnder rule).map fun e => (names ++ e.1, e.2)

theorem leavesAt_cons (name : String) (names : List String) (rule : Rule) :
    leavesAt (name :: names) rule = (leavesAt names rule).map fun e => (name :: e.1, e.2) := by
  simp [leavesAt, Function.comp_def]

/-- **A rule at a vacant place** adds its leaves, and takes none away. -/
theorem perm_attachBelow (vacant : Vacant names root) (rule : Rule) :
    (leavesOf (root.attachBelow names rule).kids).Perm
      (leavesOf root.kids ++ leavesAt names rule) := by
  induction names generalizing root with
  | nil => exact vacant.elim
  | cons name rest ih =>
    by_cases last : rest = []
    · subst last
      have missing : root.kids.get? name = none := by
        cases child : root.kids.get? name with
        | none => rfl
        | some c => exact (vacant.2 c child).2.elim
      change (leavesOf (root.kids.put name rule)).Perm _
      rw [leavesOf_put_of_none missing]
      exact .refl _
    · rw [attachBelow_cons root rule name last, kids_putChild, leavesAt_cons]
      cases child : root.child? name with
      | none =>
        have inner : (empty.attachBelow rest rule).Inner := inner_attachBelow rfl last rule
        rw [Option.getD_none, leavesOf_put_of_none child, leavesUnder_of_inner inner]
        exact ((ih (vacant_empty last)).map _).append_left _
      | some c =>
        obtain ⟨some, inside⟩ := vacant.2 c child
        have isObject : c.type = .object := by
          obtain ⟨_, _, rfl⟩ := List.exists_cons_of_ne_nil last
          exact inside.1
        obtain ⟨before, after, same, put⟩ := leavesOf_put_of_child child
        rw [Option.getD_some, put, same, leavesUnder_of_inner (inner_attachBelow isObject last rule),
          leavesUnder_of_inner ⟨isObject, some⟩]
        have inner := (ih inside).map fun e : List String × Rule => (name :: e.1, e.2)
        rw [List.map_append] at inner
        -- The child keeps its place, so its new leaves come before those of the later children.
        refine ((inner.append_left before).append_right after).trans ?_
        simp only [List.append_assoc]
        exact (List.perm_append_comm.append_left _).append_left _

/-- **Rules at paths that are apart**: the leaves of the tree are those of the rules, each below its
path. -/
theorem perm_attachAll {leaves : Fields Rule}
    (apart : leaves.Pairwise fun e d => Incomparable (segments e.1) (segments d.1)) :
    ∀ {root : Rule}, (∀ e ∈ leaves, Vacant (segments e.1) root) →
      (leavesOf (leaves.foldl (fun root e => root.attach e.1 e.2) root).kids).Perm
        (leavesOf root.kids ++ leaves.flatMap fun e => leavesAt (segments e.1) e.2) := by
  induction leaves with
  | nil => exact fun _ => by simp
  | cons e rest ih =>
    intro root vacant
    obtain ⟨first, others⟩ := List.pairwise_cons.1 apart
    obtain ⟨here, later⟩ := List.forall_mem_cons.1 vacant
    rw [List.foldl_cons, List.flatMap_cons, ← List.append_assoc]
    have vacant' : ∀ d ∈ rest, Vacant (segments d.1) (root.attach e.1 e.2) := by
      intro d inside
      rw [attach_eq]
      exact vacant_attachBelow (first d inside).symm (later d inside) e.2
    refine (ih others vacant').trans (List.Perm.append_right _ ?_)
    rw [attach_eq]
    exact perm_attachBelow here e.2

/-- Rules that are attached to an empty root leave it with children. -/
theorem kids_attachAll {rules : Fields Rule} :
    ((rules.foldl (fun tree e => tree.attach e.1 e.2) empty).kids = []) ↔ rules = [] := by
  rcases rules.eq_nil_or_concat with rfl | ⟨before, last, rfl⟩
  · exact iff_of_true rfl rfl
  · refine iff_of_false ?_ (by simp)
    rw [List.concat_eq_append, List.foldl_append, List.foldl_cons, List.foldl_nil, attach_eq]
    obtain ⟨first, rest, path⟩ := List.exists_cons_of_ne_nil (segments_ne_nil last.1)
    rw [path]
    exact kids_attachAt_ne_nil _ first rest last.2

/-! ## Names -/

theorem fieldsWellNamed_put {cs : Fields Rule} (named : FieldsWellNamed cs) (segment : IsSegment name)
    {c : Rule} (child : c.WellNamed) : FieldsWellNamed (cs.put name c) := by
  induction cs with
  | nil => exact ⟨segment, List.not_mem_nil, child, trivial⟩
  | cons e rest ih =>
    obtain ⟨other, d⟩ := e
    rw [Fields.put]
    split
    next here => exact ⟨named.1, named.2.1, child, named.2.2.2⟩
    next elsewhere =>
      refine ⟨named.1, ?_, named.2.2.1, ih named.2.2.2⟩
      rw [Fields.keys_put]
      split
      · exact named.2.1
      · simpa [elsewhere] using named.2.1

theorem wellNamed_of_kids {r : Rule} (named : FieldsWellNamed r.kids) : r.WellNamed := by
  obtain ⟨f, items, children⟩ := r
  cases children with
  | none => trivial
  | some cs => exact named

theorem wellNamed_child {cs : Fields Rule} (named : FieldsWellNamed cs) {c : Rule}
    (child : cs.get? name = some c) : c.WellNamed := by
  induction cs with
  | nil => cases child
  | cons e rest ih =>
    obtain ⟨other, d⟩ := e
    rw [Fields.get?_cons] at child
    split at child
    · exact Option.some.inj child ▸ named.2.2.1
    · exact ih named.2.2.2 child

theorem WellNamed.attachBelow (named : root.WellNamed) (child : rule.WellNamed)
    (all : ∀ name ∈ names, IsSegment name) : (root.attachBelow names rule).WellNamed := by
  induction names generalizing root with
  | nil => exact named
  | cons name rest ih =>
    obtain ⟨segment, others⟩ := List.forall_mem_cons.1 all
    have kids := fieldsWellNamed_kids named
    by_cases last : rest = []
    · subst last
      exact fieldsWellNamed_put kids segment child
    · rw [attachBelow_cons root rule name last]
      refine fieldsWellNamed_put kids segment (ih ?_ others)
      cases found : root.child? name with
      | none => trivial
      | some c => exact wellNamed_child kids found

theorem WellNamed.attachAll {leaves : Fields Rule}
    (all : ∀ e ∈ leaves, e.2.WellNamed ∧ ∀ name ∈ segments e.1, IsSegment name) :
    ∀ {root : Rule}, root.WellNamed →
      (leaves.foldl (fun root e => root.attach e.1 e.2) root).WellNamed := by
  induction leaves with
  | nil => exact fun named => named
  | cons e rest ih =>
    intro root named
    obtain ⟨first, others⟩ := List.forall_mem_cons.1 all
    have here : (root.attach e.1 e.2).WellNamed := by
      rw [attach_eq]
      exact named.attachBelow first.1 first.2
    exact ih others here

end ShapeContract.Rule
