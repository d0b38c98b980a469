import ShapeContract.Proofs.Declaration.Blocks
import ShapeContract.Proofs.Introspection.Lifted
import ShapeContract.Proofs.Introspection.Visit

/-!
# Trees along definitions

Introspection attaches the rules of a document one by one at their dotted paths. Said along the
definition instead: a declaration has its own rule, and a nested block has an object of what is in
it. `outcome_walk` says that the two are one.
-/

set_option autoImplicit false

namespace ShapeContract.Introspection

open Document (placed placedAt isBlock Tidy TidyFields descriptorOf)
open Rule (attachEach)

/-- The object that holds the fields of a document or of a nested block. -/
def holder (kids : Fields Rule) : Rule := ⟨Rule.empty.facets, none, some kids⟩

theorem of_map_eq_map {α β γ : Type} {x : Except Failure α} {y : Except Failure β} {f : α → γ}
    {g : β → γ} (same : x.map f = y.map g) :
    (∃ e, x = .error e ∧ y = .error e) ∨ ∃ a b, x = .ok a ∧ y = .ok b ∧ f a = g b := by
  cases x with
  | error e =>
    cases y with
    | error e' => exact .inl ⟨e, rfl, (Except.error.inj same) ▸ rfl⟩
    | ok b => cases same
  | ok a =>
    cases y with
    | error e' => cases same
    | ok b => exact .inr ⟨a, b, rfl, rfl, Except.ok.inj same⟩

/-! ## Along the definition -/

section Growth

variable (rule : String → Value → Except Failure Rule)

mutual

/-- The rule of a declaration at a path. -/
def grownAt (path : String) : Value → Except Failure Rule
  | .object fs =>
    if Fields.contains fs "type" then rule path (.object fs) else (grown path fs).map holder
  | v => rule path v

/-- The rules of a definition below a path, by key. -/
def grown (path : String) : List (String × Value) → Except Failure (Fields Rule)
  | [] => .ok []
  | (key, v) :: rest => do
    let r ← grownAt (extendPath path key) v
    let rs ← grown path rest
    pure ((key, r) :: rs)

end

theorem grownAt_of_leaf {v : Value} (leaf : isBlock v = false) (path : String) :
    grownAt rule path v = rule path v := by
  cases v with
  | object fs =>
    rw [isBlock, Bool.not_eq_false'] at leaf
    rw [grownAt, if_pos leaf]
  | _ => rfl

theorem grownAt_block {fs : List (String × Value)} (block : isBlock (.object fs) = true)
    (path : String) : grownAt rule path (.object fs) = (grown rule path fs).map holder := by
  rw [isBlock, Bool.not_eq_true'] at block
  rw [grownAt, if_neg (ne_true_of_eq_false block)]

theorem keys_grown {fs : List (String × Value)} {path : String} {kids : Fields Rule}
    (done : grown rule path fs = .ok kids) : kids.keys = Fields.keys fs := by
  induction fs generalizing kids with
  | nil =>
    cases done
    rfl
  | cons head rest ih =>
    obtain ⟨key, v⟩ := head
    rw [grown, Rule.bind_ok_iff] at done
    obtain ⟨r, -, done⟩ := done
    obtain ⟨rs, later, same⟩ := Rule.bind_ok_iff.1 done
    cases same
    exact congrArg (key :: ·) (ih later)

/-! ## One by one -/

/-- The rules of declarations, each with the keys that lead to it. -/
def ruled (path : String) : List (List String × Value) →
    Except Failure (List (List String × Rule))
  | [] => .ok []
  | (keys, v) :: rest => do
    let r ← rule (dotted path keys) v
    let rs ← ruled path rest
    pure ((keys, r) :: rs)

theorem ruled_append (path : String) (ds more : List (List String × Value)) :
    ruled rule path (ds ++ more) = (do
      let rs ← ruled rule path ds
      let others ← ruled rule path more
      pure (rs ++ others)) := by
  induction ds with
  | nil =>
    simp only [List.nil_append, ruled]
    cases ruled rule path more <;> rfl
  | cons d rest ih =>
    obtain ⟨keys, v⟩ := d
    rw [List.cons_append, ruled, ih, ruled]
    cases rule (dotted path keys) v with
    | error e => rfl
    | ok r =>
      cases ruled rule path rest with
      | error e => rfl
      | ok rs => cases ruled rule path more <;> rfl

theorem ruled_under (path key : String) (ds : List (List String × Value)) :
    ruled rule path (ds.map fun e => (key :: e.1, e.2)) =
      (ruled rule (extendPath path key) ds).map fun rs => rs.map fun e => (key :: e.1, e.2) := by
  induction ds with
  | nil => rfl
  | cons d rest ih =>
    obtain ⟨keys, v⟩ := d
    rw [List.map_cons, ruled, ih, ruled]
    change (rule (dotted (extendPath path key) keys) v >>= _) = _
    cases rule (dotted (extendPath path key) keys) v with
    | error e => rfl
    | ok r => cases ruled rule (extendPath path key) rest <;> rfl

variable {rule}

theorem keys_ruled {path : String} {ds : List (List String × Value)}
    {rs : List (List String × Rule)} (done : ruled rule path ds = .ok rs) :
    rs.map Prod.fst = ds.map Prod.fst := by
  induction ds generalizing rs with
  | nil =>
    cases done
    rfl
  | cons d rest ih =>
    obtain ⟨keys, v⟩ := d
    rw [ruled, Rule.bind_ok_iff] at done
    obtain ⟨r, -, done⟩ := done
    obtain ⟨others, later, same⟩ := Rule.bind_ok_iff.1 done
    cases same
    exact congrArg (keys :: ·) (ih later)

/-- A definition that is not empty declares something. -/
theorem placed_ne_nil (fs : List (String × Value)) (some : fs ≠ []) (tidy : TidyFields fs) :
    placed fs ≠ [] := by
  match fs with
  | [] => exact absurd rfl some
  | (key, v) :: rest =>
    obtain ⟨-, -, here, -⟩ := tidy
    have first : placedAt v ≠ [] := by
      rcases Document.block_or_leaf v with ⟨inner, rfl, block⟩ | leaf
      · obtain ⟨some, deep⟩ := (Document.tidy_block block).1 here
        rw [Document.placedAt_block block]
        exact placed_ne_nil inner some deep
      · rw [Document.placedAt_of_leaf leaf]
        exact List.cons_ne_nil _ _
    rw [placed]
    exact List.append_ne_nil_of_left_ne_nil (mt List.map_eq_nil_iff.1 first) _
termination_by sizeOf fs

mutual

/-- **The step along a definition**: the rules of its declarations, attached below new keys. -/
theorem attachEach_placed (f : Facets) (items : Option Rule) (fs : List (String × Value))
    (tidy : TidyFields fs) (path : String) (known : Fields Rule)
    (fresh : ∀ key ∈ Fields.keys fs, key ∉ known.keys) :
    (ruled rule path (placed fs)).map (attachEach ⟨f, items, some known⟩) =
      (grown rule path fs).map fun kids => ⟨f, items, some (known ++ kids)⟩ := by
  match fs with
  | [] => simp [placed, ruled, grown, Except.map]
  | (key, v) :: rest =>
    obtain ⟨-, new, here, later⟩ := tidy
    have first := attachEach_placedAt f items v here (extendPath path key) known
      (fresh key List.mem_cons_self)
    have others (r : Rule) : ∀ other ∈ Fields.keys rest, other ∉ Fields.keys (known ++ [(key, r)]) := by
      intro other inside
      have old := fresh other (List.mem_cons_of_mem _ inside)
      have different : other ≠ key := fun same => new (same ▸ inside)
      simpa [Fields.keys, different] using old
    rw [placed, ruled_append, ruled_under, grown]
    rcases of_map_eq_map first with ⟨e, rules, grew⟩ | ⟨rs, r, rules, grew, here⟩
    · rw [rules, grew]
      rfl
    · have next := attachEach_placed f items rest later path (known ++ [(key, r)]) (others r)
      rw [rules, grew]
      rcases of_map_eq_map next with ⟨e, rules, grew⟩ | ⟨more, kids, rules, grew, there⟩
      · rw [rules, grew]
        rfl
      · rw [rules, grew]
        refine congrArg Except.ok ?_
        rw [Rule.attachEach_append, here, there, List.append_assoc]
        rfl
termination_by sizeOf fs

theorem attachEach_placedAt (f : Facets) (items : Option Rule) (v : Value) (tidy : Tidy v)
    (path : String) {key : String} (known : Fields Rule) (new : key ∉ known.keys) :
    (ruled rule path (placedAt v)).map (fun rs =>
        attachEach ⟨f, items, some known⟩ (rs.map fun e => (key :: e.1, e.2))) =
      (grownAt rule path v).map fun r => ⟨f, items, some (known ++ [(key, r)])⟩ := by
  have added (r : Rule) : Rule.putChild ⟨f, items, some known⟩ key r =
      ⟨f, items, some (known ++ [(key, r)])⟩ := by
    rw [Rule.putChild, Rule.kids, Option.getD_some, Fields.put_of_notMem known r new]
  rcases Document.block_or_leaf v with ⟨fs, rfl, block⟩ | leaf
  · obtain ⟨some', tidyBlock⟩ := (Document.tidy_block block).1 tidy
    have inside := attachEach_placed Rule.empty.facets none fs tidyBlock path [] (by simp [Fields.keys])
    have absent : Rule.child? ⟨f, items, some known⟩ key = none := Fields.get?_of_notMem known new
    rw [Document.placedAt_block block, grownAt_block rule block]
    rcases of_map_eq_map inside with ⟨e, rules, grew⟩ | ⟨rs, kids, rules, grew, below⟩
    · rw [rules, grew]
      rfl
    · have keys := keys_ruled rules
      have deep : ∀ e ∈ rs, e.1 ≠ [] := by
        intro e among
        have known : e.1 ∈ (placed fs).map Prod.fst := keys ▸ List.mem_map_of_mem among
        obtain ⟨d, among, same⟩ := List.mem_map.1 known
        exact same ▸ Document.placed_deep fs d among
      have some : rs ≠ [] := by
        rintro rfl
        have none : (placed fs).map Prod.fst = [] := keys.symm
        exact placed_ne_nil fs some' tidyBlock (List.map_eq_nil_iff.1 none)
      rw [rules, grew]
      -- What leads through a key is attached to one new object, which starts out empty.
      have below : attachEach Rule.empty rs = holder kids := below
      refine congrArg Except.ok ?_
      beta_reduce
      rw [Rule.attachEach_under key rs deep some, absent, Option.getD_none, below, added]
  · rw [Document.placedAt_of_leaf leaf, grownAt_of_leaf rule leaf]
    simp only [ruled]
    change (rule path v >>= _).map _ = _
    cases rule path v with
    | error e => rfl
    | ok r => exact congrArg Except.ok (added r)
termination_by sizeOf v

end

end Growth

/-! ## Documents -/

/-- The rule of a declaration, with the schemas below its path introspected as given. -/
def fieldRule (descend : String → Target → Traced Rule) (path : String) (v : Value) :
    Except Failure Rule := do
  let d ← descriptorOf v
  (ruleOf (descend path) d).outcome

/-- The visits of declared paths attach their rules, unless one has none. -/
theorem outcome_visits (descend : String → Target → Traced Rule)
    {ds : List (List String × Value)} {paths : Fields Descriptor}
    (declared : List.Forall₂ (fun e p => p.1 = dotted "" e.1 ∧ descriptorOf e.2 = .ok p.2) ds paths)
    (plain : ∀ e ∈ ds, (∀ key ∈ e.1, IsSegment key) ∧ e.1 ≠ []) (tree : Rule) :
    ((paths.map fun p => (p.1, .ok p.2)).foldlM (visit descend) tree).outcome =
      (ruled (fieldRule descend) "" ds).map (attachEach tree) := by
  induction declared generalizing tree with
  | nil => rfl
  | @cons e p ds paths both _ ih =>
    obtain ⟨keys, v⟩ := e
    obtain ⟨path, d⟩ := p
    obtain ⟨same, read⟩ : path = dotted "" keys ∧ descriptorOf v = .ok d := both
    obtain ⟨here, later⟩ := List.forall_mem_cons.1 plain
    have own : fieldRule descend path v = (ruleOf (descend path) d).outcome := by
      rw [fieldRule, read]
      rfl
    rw [List.map_cons, List.foldlM_cons, Traced.outcome_bind, outcome_visit, ruled, ← same, own]
    cases (ruleOf (descend path) d).outcome with
    | error e => rfl
    | ok r =>
      have attached : tree.attach path r = tree.attachBelow keys r :=
        same ▸ Rule.attach_dotted tree r here.1 here.2
      have rest := ih later (tree.attach path r)
      rw [attached] at rest
      change ((paths.map fun p => (p.1, Except.ok p.2)).foldlM (visit descend)
        (tree.attach path r)).outcome = _
      rw [attached, rest]
      cases ruled (fieldRule descend) "" ds <;> rfl

/-- **A document grows along its definition**: introspection makes the tree of its fields. -/
theorem outcome_walk {catalog : Catalog} (bound : Int) (depth : Nat) (path : String) (levels : Nat)
    {target : Target} {fs : List (String × Value)} {paths : Fields Descriptor}
    (entries : target.entries catalog = .ok (paths.map fun p => (p.1, .ok p.2)))
    (declared : Document.declareFields [] "" fs = (paths, none)) (tidy : TidyFields fs) :
    (walk catalog bound depth path (levels + 1) target).outcome =
      (grown (fieldRule fun name => walk catalog bound (depth + 1) (path ++ name ++ ".") levels)
        "" fs).map holder := by
  have plain : ∀ e ∈ placed fs, (∀ key ∈ e.1, IsSegment key) ∧ e.1 ≠ [] :=
    fun e inside => ⟨Document.placed_segments fs tidy e inside, Document.placed_deep fs e inside⟩
  rw [walk_succ, entries, Traced.outcome_bind, Traced.outcome_lift]
  change (visitAll catalog depth target _ _).outcome = _
  rw [outcome_visitAll_eq, outcome_visits _ (Document.forall₂_paths tidy declared) plain]
  exact attachEach_placed Rule.empty.facets none fs tidy "" [] (by simp [Fields.keys])

end ShapeContract.Introspection
