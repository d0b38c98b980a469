import ShapeContract.Proofs.Rule.Eased

/-!
# Where a leaf is from

Rules that are attached one after the other write over each other: what stands at a place is from
the last of them that was attached there or above. `Rule.placed_attachAll` says so of the leaves of
the tree that comes out.
-/

set_option autoImplicit false

namespace ShapeContract

namespace Rule

/-! ## Leaves -/

/-- An object with children, which is no leaf. -/
def Inner (r : Rule) : Prop := r.type = .object ∧ r.kids ≠ []

/-- An object with children has the leaves of its children … -/
theorem leavesUnder_of_inner {r : Rule} (inner : r.Inner) : leavesUnder r = leavesOf r.kids := by
  obtain ⟨f, items, children⟩ := r
  cases children with
  | none => exact absurd rfl inner.2
  | some cs => exact if_pos inner

/-- … and any other rule is its own single leaf. -/
theorem leavesUnder_of_not_inner {r : Rule} (leaf : ¬ r.Inner) : leavesUnder r = [([], r)] := by
  obtain ⟨f, items, children⟩ := r
  cases children with
  | none => rfl
  | some cs => exact if_neg leaf

/-- A leaf of fields is a leaf under one of them. -/
theorem mem_leavesOf_iff {cs : Fields Rule} {names : List String} {r : Rule} :
    (names, r) ∈ leavesOf cs ↔
      ∃ name c more, (name, c) ∈ cs ∧ names = name :: more ∧ (more, r) ∈ leavesUnder c := by
  induction cs with
  | nil => simp [leavesOf]
  | cons e rest ih =>
    obtain ⟨name, c⟩ := e
    rw [leavesOf, List.mem_append, List.mem_map, ih]
    constructor
    · rintro (⟨⟨more, s⟩, under, same⟩ | ⟨other, d, more, inside, named, under⟩)
      · cases same
        exact ⟨name, c, more, List.mem_cons_self, rfl, under⟩
      · exact ⟨other, d, more, List.mem_cons_of_mem _ inside, named, under⟩
    · rintro ⟨other, d, more, inside, rfl, under⟩
      rcases List.mem_cons.1 inside with same | later
      · cases same
        exact .inl ⟨(more, r), under, rfl⟩
      · exact .inr ⟨other, d, more, later, rfl, under⟩

mutual

/-- No leaf is an object with children. -/
theorem not_inner_leavesOf : ∀ cs : List (String × Rule), ∀ e ∈ leavesOf cs, ¬ e.2.Inner
  | [] => fun e inside => nomatch inside
  | (name, c) :: rest => by
    intro e inside
    rw [leavesOf, List.mem_append, List.mem_map] at inside
    rcases inside with ⟨tail, under, rfl⟩ | later
    · exact not_inner_leavesUnder c tail under
    · exact not_inner_leavesOf rest e later

theorem not_inner_leavesUnder : ∀ c : Rule, ∀ e ∈ leavesUnder c, ¬ e.2.Inner
  | ⟨f, items, none⟩ => by simp [leavesUnder, Inner, kids]
  | ⟨f, items, some cs⟩ => by
    unfold leavesUnder
    split
    · exact not_inner_leavesOf cs
    next leaf =>
      intro e inside
      rw [List.mem_singleton.1 inside]
      exact leaf

end

/-! ## Unambiguous rules -/

mutual

/-- The children of an object have different names, at every depth. -/
def Unambiguous : Rule → Prop
  | ⟨f, _, children⟩ => f.type = .object → ChildrenUnambiguous children

def ChildrenUnambiguous : Option (List (String × Rule)) → Prop
  | none => True
  | some cs => (Fields.keys cs).Nodup ∧ FieldsUnambiguous cs

def FieldsUnambiguous : List (String × Rule) → Prop
  | [] => True
  | (_, c) :: rest => Unambiguous c ∧ FieldsUnambiguous rest

end

theorem fieldsUnambiguous_iff {cs : Fields Rule} :
    FieldsUnambiguous cs ↔ ∀ e ∈ cs, e.2.Unambiguous := by
  induction cs with
  | nil => simp [FieldsUnambiguous]
  | cons e rest ih =>
    obtain ⟨name, c⟩ := e
    simp [FieldsUnambiguous, ih]

/-- In an unambiguous rule the children of every object are told apart by their names. -/
theorem unambiguous_iff {r : Rule} :
    r.Unambiguous ↔ (r.type = .object → r.kids.keys.Nodup ∧ ∀ e ∈ r.kids, e.2.Unambiguous) := by
  obtain ⟨f, items, children⟩ := r
  refine imp_congr_right fun _ => ?_
  cases children with
  | none => exact iff_of_true trivial ⟨List.nodup_nil, fun _ inside => nomatch inside⟩
  | some cs => exact and_congr_right fun _ => fieldsUnambiguous_iff

theorem unambiguous_of_not_inner {r : Rule} (leaf : ¬ r.Inner) : r.Unambiguous := by
  refine unambiguous_iff.2 fun isObject => ?_
  rw [not_not.1 fun some => leaf ⟨isObject, some⟩]
  exact ⟨List.nodup_nil, fun _ inside => nomatch inside⟩

/-- A rule read from mappings is unambiguous, since a mapping has each key once. -/
theorem WellKeyed.unambiguous {r : Rule} (keyed : r.WellKeyed) : r.Unambiguous := by
  induction r using Rule.induct with
  | node f items children _ kids =>
    obtain ⟨own, each⟩ := childrenWellKeyed_iff.1 keyed.2.2
    exact unambiguous_iff.2 fun _ => ⟨own, fun e inside => kids e inside (each e inside)⟩

theorem unambiguous_empty : empty.Unambiguous :=
  unambiguous_of_not_inner fun inner => inner.2 rfl

/-- The child of an object, or a new one. -/
theorem unambiguous_child {root : Rule} (own : root.Unambiguous) (isObject : root.type = .object)
    (name : String) : ((root.child? name).getD empty).Unambiguous := by
  cases child : root.child? name with
  | none => exact unambiguous_empty
  | some c => exact (unambiguous_iff.1 own isObject).2 _ (Fields.mem_of_get? child)

/-- Writing a child over the one of its name keeps names apart … -/
theorem Unambiguous.putChild {root c : Rule} (own : root.Unambiguous) (child : c.Unambiguous)
    (name : String) : (root.putChild name c).Unambiguous := by
  refine unambiguous_iff.2 fun isObject => ?_
  obtain ⟨distinct, each⟩ := unambiguous_iff.1 own isObject
  refine ⟨Fields.nodup_keys_put distinct name c, fun e inside => ?_⟩
  rcases Fields.mem_put inside with old | rfl
  · exact each e old
  · exact child

/-- … so attaching a rule at any path does. -/
theorem Unambiguous.attachAt {root r : Rule} (own : root.Unambiguous) (isObject : root.type = .object)
    (rule : r.Unambiguous) (first : String) (rest : List String) :
    (root.attachAt first rest r).Unambiguous := by
  induction rest generalizing root first with
  | nil => exact own.putChild rule first
  | cons next rest ih =>
    refine own.putChild ?_ first
    by_cases below : ((root.child? first).getD empty).type = .object
    · exact ih (unambiguous_child own isObject first) below next
    · refine unambiguous_iff.2 fun object => absurd ?_ below
      rwa [type, facets_attachAt] at object

/-- The names that lead to a leaf lead to its node. -/
theorem node?_of_leaf {r c : Rule} {names : List String} (own : r.Unambiguous)
    (leaf : (names, c) ∈ leavesUnder r) : r.node? names = some c := by
  induction names generalizing r with
  | nil =>
    by_cases inner : r.Inner
    · rw [leavesUnder_of_inner inner] at leaf
      exact absurd rfl (leavesOf_deep _ _ leaf)
    · rw [leavesUnder_of_not_inner inner] at leaf
      cases List.mem_singleton.1 leaf
      rfl
  | cons name rest ih =>
    by_cases inner : r.Inner
    · obtain ⟨distinct, each⟩ := unambiguous_iff.1 own inner.1
      rw [leavesUnder_of_inner inner] at leaf
      obtain ⟨_, d, _, inside, same, under⟩ := mem_leavesOf_iff.1 leaf
      cases same
      have child : r.child? name = some d := (Fields.get?_eq_some_iff distinct name d).2 inside
      rw [node?, child]
      exact ih (each _ inside) under
    · rw [leavesUnder_of_not_inner inner] at leaf
      cases List.mem_singleton.1 leaf

/-! ## Attaching -/

/-- What has had a rule attached has children. -/
theorem kids_attachAt_ne_nil (root : Rule) (first : String) (rest : List String) (rule : Rule) :
    (root.attachAt first rest rule).kids ≠ [] := by
  have put : ∀ c, root.kids.put first c ≠ [] := by
    intro c
    cases root.kids with
    | nil => exact List.cons_ne_nil _ _
    | cons e more =>
      rw [Fields.put]
      split <;> exact List.cons_ne_nil _ _
  cases rest <;> exact put _

/-- The leaves under a child, with its name before. -/
theorem mem_leavesOf_of_child {root c s : Rule} {name : String} {more : List String}
    (child : root.child? name = some c) (under : (more, s) ∈ leavesUnder c) :
    (name :: more, s) ∈ leavesOf root.kids :=
  mem_leavesOf_iff.2 ⟨name, c, more, Fields.mem_of_get? child, rfl, under⟩

/-- What is attached below is attached to a child, or to a new object. -/
theorem attached_below {root rule r : Rule} {name next : String} {rest more : List String}
    (under : (more, r) ∈ leavesUnder
      (((root.child? name).getD empty).attachAt next rest rule)) :
    (((root.child? name).getD empty).type = .object ∧
        (more, r) ∈ leavesOf (((root.child? name).getD empty).attachAt next rest rule).kids) ∨
      (more = [] ∧ ∃ s, ([name], s) ∈ leavesOf root.kids ∧ s.facets = r.facets) := by
  have facets := facets_attachAt ((root.child? name).getD empty) next rest rule
  by_cases below : ((root.child? name).getD empty).type = .object
  · left
    rw [leavesUnder_of_inner ⟨by rwa [type, facets], kids_attachAt_ne_nil _ _ _ _⟩] at under
    exact ⟨below, under⟩
  · right
    have leaf : ¬ (((root.child? name).getD empty).attachAt next rest rule).Inner := by
      rintro ⟨isObject, -⟩
      rw [type, facets] at isObject
      exact below isObject
    rw [leavesUnder_of_not_inner leaf] at under
    cases List.mem_singleton.1 under
    cases child : root.child? name with
    | none =>
      rw [child] at below
      exact absurd rfl below
    | some c =>
      rw [child, Option.getD_some] at below facets
      have own : ([], c) ∈ leavesUnder c := by
        rw [leavesUnder_of_not_inner fun inner => below inner.1]
        exact List.mem_singleton_self _
      exact ⟨rfl, c, mem_leavesOf_of_child child own, facets.symm⟩

/-- Nothing is attached above a leaf under another name. -/
theorem kept_of_ne {cs : Fields Rule} {c r : Rule} {name first : String} {rest more : List String}
    (inside : (name, c) ∈ cs) (apart : name ≠ first) (under : (more, r) ∈ leavesUnder c) :
    ¬ first :: rest <+: name :: more ∧
      ∃ s, (name :: more, s) ∈ leavesOf cs ∧ s.facets = r.facets := by
  refine ⟨fun leads => apart (List.cons_prefix_cons.1 leads).1.symm, r, ?_, rfl⟩
  exact mem_leavesOf_iff.2 ⟨name, c, more, inside, rfl, under⟩

/-- The step: a leaf of a tree with a rule attached is one of that rule, or it was there before and
the rule is not attached at it or above. -/
theorem placed_attachAt {root rule r : Rule} {first : String} {rest names : List String}
    (own : root.Unambiguous) (isObject : root.type = .object)
    (leaf : (names, r) ∈ leavesOf (root.attachAt first rest rule).kids) :
    (∃ more, names = first :: (rest ++ more) ∧ (more, r) ∈ leavesUnder rule) ∨
      (¬ first :: rest <+: names ∧ ∃ s, (names, s) ∈ leavesOf root.kids ∧ s.facets = r.facets) := by
  -- On the names that lead to the rule: it changes one child, and a node on the way that is no
  -- object stays a leaf, with a child more but the same facets.
  induction rest generalizing root first names with
  | nil =>
    obtain ⟨name, c, more, inside, rfl, under⟩ := mem_leavesOf_iff.1 leaf
    rcases Fields.mem_put_of_nodup (unambiguous_iff.1 own isObject).1 inside with same | ⟨old, apart⟩
    · cases same
      exact .inl ⟨more, rfl, under⟩
    · exact .inr (kept_of_ne old apart under)
  | cons next rest ih =>
    obtain ⟨name, c, more, inside, rfl, under⟩ := mem_leavesOf_iff.1 leaf
    rcases Fields.mem_put_of_nodup (unambiguous_iff.1 own isObject).1 inside with same | ⟨old, apart⟩
    · cases same
      rcases attached_below under with ⟨below, deep⟩ | ⟨rfl, s, here, same⟩
      · rcases ih (unambiguous_child own isObject first) below deep with
          ⟨tail, rfl, placed⟩ | ⟨above, s, before, same⟩
        · exact .inl ⟨tail, rfl, placed⟩
        · refine .inr ⟨fun leads => above (List.cons_prefix_cons.1 leads).2, s, ?_, same⟩
          cases child : root.child? first with
          | none =>
            rw [child] at before
            cases before
          | some c =>
            rw [child, Option.getD_some] at before below
            refine mem_leavesOf_of_child child ?_
            rw [leavesUnder_of_inner ⟨below, fun none => ?_⟩]
            · exact before
            · rw [none] at before
              cases before
      · refine .inr ⟨fun leads => ?_, s, here, same⟩
        cases (List.prefix_nil.1 (List.cons_prefix_cons.1 leads).2)
    · exact .inr (kept_of_ne old apart under)

/-- The last of the rules that is attached at a place or above it. -/
def lastAbove (names : List String) (leaves : Fields Rule) : Option (String × Rule) :=
  (leaves.filter fun e => decide (segments e.1 <+: names)).getLast?

/-- The last rule above a path is looked for from the end of the list. -/
theorem lastAbove_cons (names : List String) (e : String × Rule) (rest : Fields Rule) :
    lastAbove names (e :: rest) =
      (lastAbove names rest).or (if segments e.1 <+: names then some e else none) := by
  unfold lastAbove
  rw [List.filter_cons]
  by_cases above : segments e.1 <+: names
  · simp [above, List.getLast?_cons]
  · simp [above]

theorem unambiguous_attach {root : Rule} (own : root.Unambiguous) (isObject : root.type = .object)
    {e : String × Rule} (rule : e.2.Unambiguous) :
    (root.attach e.1 e.2).Unambiguous ∧ (root.attach e.1 e.2).type = .object := by
  unfold attach
  cases segments e.1 with
  | nil => exact ⟨own, isObject⟩
  | cons first rest =>
    refine ⟨own.attachAt isObject rule first rest, ?_⟩
    change (root.attachAt first rest e.2).facets.type = _
    rwa [facets_attachAt]

/-- The run: a leaf of a tree with rules attached is one of the last rule at it or above, or it was
there before and there is no such rule. -/
theorem placed_attachAll {leaves : Fields Rule} (each : ∀ e ∈ leaves, e.2.Unambiguous) {root r : Rule}
    {names : List String} (own : root.Unambiguous) (isObject : root.type = .object)
    (leaf : (names, r) ∈ leavesOf (leaves.foldl (fun root e => root.attach e.1 e.2) root).kids) :
    (∃ e more s, lastAbove names leaves = some e ∧ names = segments e.1 ++ more ∧
        (more, s) ∈ leavesUnder e.2 ∧ s.facets = r.facets) ∨
      (lastAbove names leaves = none ∧
        ∃ s, (names, s) ∈ leavesOf root.kids ∧ s.facets = r.facets) := by
  induction leaves generalizing root with
  | nil => exact .inr ⟨rfl, r, leaf, rfl⟩
  | cons e rest ih =>
    obtain ⟨rule, others⟩ := List.forall_mem_cons.1 each
    obtain ⟨own', isObject'⟩ := unambiguous_attach own isObject rule
    rw [lastAbove_cons]
    rcases ih others own' isObject' leaf with ⟨d, more, s, last, placed⟩ | ⟨none, s, before, same⟩
    · rw [last, Option.some_or]
      exact .inl ⟨d, more, s, rfl, placed⟩
    · rw [none, Option.none_or]
      obtain ⟨first, more, path⟩ := List.exists_cons_of_ne_nil (segments_ne_nil e.1)
      rw [attach, path] at before
      rw [path]
      rcases placed_attachAt own isObject before with ⟨tail, rfl, under⟩ | ⟨above, t, earlier, old⟩
      · refine .inl ⟨e, tail, s, if_pos ⟨tail, rfl⟩, ?_, under, same⟩
        rw [path]
        rfl
      · exact .inr ⟨if_neg above, t, earlier, old.trans same⟩

end Rule

/-- **Every leaf of a built tree is from the last rule attached at it or above.** -/
theorem Overrides.placed_build {leaves : Fields Rule} (each : ∀ e ∈ leaves, e.2.Unambiguous)
    {names : List String} {r : Rule} (leaf : (names, r) ∈ Rule.leavesOf (build leaves).kids) :
    ∃ e more s, Rule.lastAbove names leaves = some e ∧ names = segments e.1 ++ more ∧
      (more, s) ∈ Rule.leavesUnder e.2 ∧ s.facets = r.facets := by
  rcases Rule.placed_attachAll each Rule.unambiguous_empty rfl leaf with placed | ⟨-, s, before, -⟩
  · exact placed
  · cases before

/-- A tree built from unambiguous leaves is an unambiguous object. -/
theorem Overrides.unambiguous_build {leaves : Fields Rule} (each : ∀ e ∈ leaves, e.2.Unambiguous) :
    (build leaves).Unambiguous ∧ (build leaves).type = .object := by
  have attached : ∀ root : Rule, root.Unambiguous ∧ root.type = .object →
      (leaves.foldl (fun root e => root.attach e.1 e.2) root).Unambiguous ∧
        (leaves.foldl (fun root e => root.attach e.1 e.2) root).type = .object := by
    induction leaves with
    | nil => exact fun _ own => own
    | cons e rest ih =>
      obtain ⟨rule, others⟩ := List.forall_mem_cons.1 each
      exact fun root own => ih others _ (Rule.unambiguous_attach own.1 own.2 rule)
  exact attached _ ⟨Rule.unambiguous_empty, rfl⟩

end ShapeContract
