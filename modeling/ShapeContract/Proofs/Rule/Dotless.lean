import ShapeContract.Introspection
import ShapeContract.Proofs.Rule.Keyed
import ShapeContract.Proofs.Rule.Misses

/-!
# Names without dots

The children of an introspected tree are named by segments of paths, so no name has a dot. The path
of a leaf then does not begin with a dot, and is the path of its own segments.
-/

set_option autoImplicit false

namespace ShapeContract

/-! ## Paths -/

/-- No piece of a cut text holds the separator. -/
theorem notMem_pieces (sep : Char) (cs : List Char) : ∀ p ∈ Text.pieces sep cs, sep ∉ p := by
  induction cs with
  | nil => simp [Text.pieces, Text.piecesAux]
  | cons c rest ih =>
    obtain ⟨first, more⟩ := List.forall_mem_cons.1 ih
    by_cases here : c = sep
    · simpa [Text.pieces, Text.piecesAux, here] using ⟨first, more⟩
    · simpa [Text.pieces, Text.piecesAux, here, Ne.symm here] using ⟨first, more⟩

/-- So no segment of a path holds a dot. -/
theorem dot_notMem_segments {path name : String} (inside : name ∈ segments path) :
    '.' ∉ name.toList := by
  obtain ⟨p, piece, rfl⟩ := List.mem_map.1 inside
  rw [String.toList_ofList]
  exact notMem_pieces '.' path.toList p piece

/-- Extending a path is joining with dots. -/
theorem dotted_eq_join {path : String} (some : path ≠ "") (names : List String) :
    dotted path names = Text.join "." (path :: names) := by
  induction names generalizing path with
  | nil => rw [Text.join, String.intercalate_singleton]; rfl
  | cons name rest ih =>
    have extended : extendPath path name = path ++ "." ++ name := if_neg some
    have some' : extendPath path name ≠ "" := by
      rw [extended]
      simp
    rw [dotted, List.foldl_cons]
    refine (ih some').trans ?_
    rw [extended]
    simp [Text.join, String.intercalate_cons_cons]

/-- A path whose first segment is not empty is that of its segments. -/
theorem dotted_segments_of_head {path : String} (some : (segments path).head? ≠ some "") :
    dotted "" (segments path) = path := by
  obtain ⟨first, more, path_eq⟩ := List.exists_cons_of_ne_nil (segments_ne_nil path)
  have some : first ≠ "" := by
    rintro rfl
    exact some (by rw [path_eq]; rfl)
  rw [path_eq]
  change dotted first more = path
  rw [dotted_eq_join some, ← path_eq, join_segments]

/-- A path that does not begin with a dot is that of its segments. -/
theorem dotted_segments {path : String} (start : path.toList.head? ≠ some '.') :
    dotted "" (segments path) = path := by
  cases chars : path.toList with
  | nil =>
    obtain rfl : path = "" := String.toList_eq_nil_iff.1 chars
    rfl
  | cons c rest =>
    have plain : c ≠ '.' := by
      rintro rfl
      rw [chars] at start
      exact start rfl
    refine dotted_segments_of_head ?_
    simp [segments, Text.split, Text.pieces, chars, Text.piecesAux, plain]

theorem head?_dotted {names : List String} (plain : ∀ name ∈ names, '.' ∉ name.toList) :
    (dotted "" names).toList.head? ≠ some '.' := by
  induction names with
  | nil => exact nofun
  | cons name rest ih =>
    obtain ⟨segment, others⟩ := List.forall_mem_cons.1 plain
    by_cases none : name = ""
    · subst none
      exact ih others
    · change (dotted name rest).toList.head? ≠ _
      obtain ⟨c, cs, chars⟩ := List.exists_cons_of_ne_nil (mt String.toList_eq_nil_iff.1 none)
      rw [chars] at segment
      have first : c ≠ '.' := fun same => segment (same ▸ List.mem_cons_self)
      rw [dotted_eq_join none, Text.join, String.toList_intercalate, List.map_cons, chars]
      cases rest <;> simp [List.intercalate_cons_cons, first]

namespace Rule

/-! ## Rules that are attached -/

theorem segments_dotless {name : String} (plain : '.' ∉ name.toList) : segments name = [name] := by
  simp [segments, Text.split, Text.pieces, piecesAux_of_notMem plain]

/-- Rules that are attached at names of their own are the last children of the root, in order. -/
theorem attachAll_dotless (f : Facets) (items : Option Rule) {rules : Fields Rule} :
    ∀ {before : Fields Rule}, (Fields.keys (before ++ rules)).Nodup →
      (∀ e ∈ rules, '.' ∉ e.1.toList) →
      rules.foldl (fun root e => root.attach e.1 e.2) (⟨f, items, some before⟩ : Rule) =
        ⟨f, items, some (before ++ rules)⟩ := by
  induction rules with
  | nil =>
    intro before _ _
    rw [List.append_nil]
    rfl
  | cons e rest ih =>
    intro before own dotless
    obtain ⟨name, r⟩ := e
    obtain ⟨plain, others⟩ := List.forall_mem_cons.1 dotless
    have fresh : name ∉ before.keys := fun old => by
      rw [Fields.keys, List.map_append] at own
      exact List.disjoint_of_nodup_append own old List.mem_cons_self
    have here : attach ⟨f, items, some before⟩ name r = ⟨f, items, some (before ++ [(name, r)])⟩ := by
      rw [attach, segments_dotless plain, ← Fields.put_of_notMem before r fresh]
      rfl
    rw [List.append_cons] at own
    rw [List.foldl_cons, here, ih own others, ← List.append_cons]

/-! ## Names of children -/

mutual

/-- No name of a child has a dot, at any depth. -/
def Dotless : Rule → Prop
  | ⟨_, _, children⟩ => ChildrenDotless children

def ChildrenDotless : Option (List (String × Rule)) → Prop
  | none => True
  | some cs => FieldsDotless cs

def FieldsDotless : List (String × Rule) → Prop
  | [] => True
  | (name, c) :: rest => '.' ∉ name.toList ∧ Dotless c ∧ FieldsDotless rest

end

/-- Fields are free of dots when each name and each rule below it is. -/
theorem fieldsDotless_iff {cs : Fields Rule} :
    FieldsDotless cs ↔ ∀ e ∈ cs, '.' ∉ e.1.toList ∧ e.2.Dotless := by
  induction cs with
  | nil => simp [FieldsDotless]
  | cons e rest ih =>
    obtain ⟨name, c⟩ := e
    simp [FieldsDotless, ih, and_assoc]

/-- So is a rule, at every depth. -/
theorem dotless_iff {r : Rule} : r.Dotless ↔ ∀ e ∈ r.kids, '.' ∉ e.1.toList ∧ e.2.Dotless := by
  obtain ⟨f, items, children⟩ := r
  cases children with
  | none => exact iff_of_true trivial fun _ inside => nomatch inside
  | some cs => exact fieldsDotless_iff

theorem dotless_bare (f : Facets) (items : Option Rule) (t : PrimitiveType) :
    Dotless ⟨f, items, (bare t).children⟩ := by
  refine dotless_iff.2 fun e inside => ?_
  cases t <;> cases inside

/-- Only the children of a rule count. -/
theorem Dotless.children {r : Rule} (plain : r.Dotless) (f : Facets) (items : Option Rule) :
    Dotless ⟨f, items, r.children⟩ := by
  obtain ⟨g, inner, children⟩ := r
  exact plain

theorem Dotless.putChild {root c : Rule} (plain : root.Dotless) {name : String}
    (segment : '.' ∉ name.toList) (child : c.Dotless) : (root.putChild name c).Dotless := by
  refine dotless_iff.2 fun e inside => ?_
  rcases Fields.mem_put inside with old | rfl
  · exact dotless_iff.1 plain e old
  · exact ⟨segment, child⟩

/-- Attaching at names without dots keeps a rule free of dots. -/
theorem Dotless.attachAt {root rule : Rule} (plain : root.Dotless) (child : rule.Dotless)
    {first : String} {rest : List String} (names : ∀ name ∈ first :: rest, '.' ∉ name.toList) :
    (root.attachAt first rest rule).Dotless := by
  induction rest generalizing root first with
  | nil => exact plain.putChild (names first List.mem_cons_self) child
  | cons next rest ih =>
    obtain ⟨segment, others⟩ := List.forall_mem_cons.1 names
    refine plain.putChild segment (ih ?_ others)
    cases found : root.child? first with
    | none => exact dotless_bare _ none .object
    | some c => exact (dotless_iff.1 plain _ (Fields.mem_of_get? found)).2

/-- A path is cut at its dots, so attaching at any path does. -/
theorem Dotless.attach {root rule : Rule} (plain : root.Dotless) (child : rule.Dotless)
    (path : String) : (root.attach path rule).Dotless := by
  have names := @dot_notMem_segments path
  unfold Rule.attach
  cases path : segments path with
  | nil => exact plain
  | cons first rest =>
    rw [path] at names
    exact plain.attachAt child fun name => names

mutual

/-- The steps to a leaf hold no dots. -/
theorem dot_notMem_leavesOf : ∀ cs : List (String × Rule), FieldsDotless cs →
    ∀ e ∈ leavesOf cs, ∀ name ∈ e.1, '.' ∉ name.toList
  | [], _ => fun e inside => nomatch inside
  | (name, c) :: rest, plain => by
    intro e inside
    rw [leavesOf, List.mem_append, List.mem_map] at inside
    rcases inside with ⟨tail, under, rfl⟩ | later
    · exact List.forall_mem_cons.2 ⟨plain.1, dot_notMem_leavesUnder c plain.2.1 tail under⟩
    · exact dot_notMem_leavesOf rest plain.2.2 e later

theorem dot_notMem_leavesUnder : ∀ c : Rule, c.Dotless →
    ∀ e ∈ leavesUnder c, ∀ name ∈ e.1, '.' ∉ name.toList
  | ⟨f, items, none⟩, _ => by simp [leavesUnder]
  | ⟨f, items, some cs⟩, plain => by
    unfold leavesUnder
    split
    · exact dot_notMem_leavesOf cs plain
    · simp

end

/-- The path of a leaf is that of its segments. -/
theorem Dotless.dotted_segments {r : Rule} (plain : r.Dotless) {path : String} {c : Rule}
    (leaf : (path, c) ∈ r.flatten "") : dotted "" (segments path) = path := by
  have listed := Fields.mem_ofList leaf
  rw [flattenFrom_eq] at listed
  obtain ⟨e, inside, same⟩ := List.mem_map.1 listed
  cases same
  refine ShapeContract.dotted_segments (head?_dotted ?_)
  exact dot_notMem_leavesOf _ (fieldsDotless_iff.2 (dotless_iff.1 plain)) e inside

end Rule

/-! ## Introspection -/

namespace Introspection

open Rule (bind_ok_iff)

/-- What holds at the start of a traced run through a list and is kept by each step holds at its
end. -/
theorem foldlM_invariant {α β : Type} {P : β → Prop} {f : β → α → Traced β} {xs : List α}
    (step : ∀ b x c, P b → (f b x).outcome = .ok c → P c) {b c : β} (start : P b)
    (done : (xs.foldlM f b).outcome = .ok c) : P c := by
  induction xs generalizing b with
  | nil => cases done; exact start
  | cons x rest ih =>
    rw [List.foldlM_cons, Traced.outcome_bind] at done
    obtain ⟨d, first, later⟩ := bind_ok_iff.1 done
    exact ih (step b x d start first) later

section Descent

variable {descend : Target → Traced Rule}
  (below : ∀ t r, (descend t).outcome = .ok r → r.Dotless)

include below

/-- The children of a rule are those of its embedded schema, if it has one. -/
theorem dotless_embedded {d : Descriptor} {type : PrimitiveType} {f g : Facets} {items : Option Rule}
    {r : Rule} (read : (match Target.of? d with
      | none => (pure ⟨f, items, (Rule.bare type).children⟩ : Traced Rule)
      | some target => do
        let sub ← descend target
        pure ⟨g, items, sub.children⟩).outcome = .ok r) : r.Dotless := by
  cases target : Target.of? d with
  | none =>
    rw [target] at read
    cases read
    exact Rule.dotless_bare f items type
  | some t =>
    simp only [target, Traced.outcome_bind, bind_ok_iff] at read
    obtain ⟨sub, deep, same⟩ := read
    cases same
    exact (below t sub deep).children g items

/-- The rule of a descriptor is free of dots when those of the schemas it embeds are. -/
theorem dotless_ruleOf {d : Descriptor} {r : Rule} (read : (ruleOf descend d).outcome = .ok r) :
    r.Dotless := by
  unfold ruleOf at read
  simp only [Traced.outcome_bind, Traced.outcome_lift, bind_ok_iff] at read
  obtain ⟨type, -, opts, -, facets, -, read⟩ := read
  split at read
  · simp only [Traced.outcome_bind, bind_ok_iff] at read
    obtain ⟨_, -, items, -, read⟩ := read
    exact dotless_embedded below read
  · simp only [Traced.outcome_bind, bind_ok_iff] at read
    obtain ⟨items, -, read⟩ := read
    exact dotless_embedded below read

end Descent

/-- **No name in an introspected tree has a dot.** -/
theorem dotless_walk (catalog : Catalog) (bound : Int) {depth : Nat} {path : String} {levels : Nat}
    {target : Target} {tree : Rule}
    (read : (walk catalog bound depth path levels target).outcome = .ok tree) : tree.Dotless := by
  induction levels generalizing depth path target tree with
  | zero => cases read
  | succ levels ih =>
    rw [walk] at read
    simp only [Traced.outcome_bind, Traced.outcome_lift, Traced.outcome_note, Traced.outcome_pure,
      bind_ok_iff] at read
    obtain ⟨entries, -, built, folded, _, -, same⟩ := read
    cases same
    refine foldlM_invariant (fun t e u plain made => ?_) (Rule.dotless_bare _ none .object) folded
    simp only [Traced.outcome_bind, Traced.outcome_lift, Traced.outcome_pure, bind_ok_iff] at made
    obtain ⟨d, -, rule, read, same⟩ := made
    cases same
    exact plain.attach (dotless_ruleOf (fun _ _ below => ih below) read) e.1

end Introspection

end ShapeContract
