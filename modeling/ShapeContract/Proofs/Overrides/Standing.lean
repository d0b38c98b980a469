import ShapeContract.Proofs.Lists
import ShapeContract.Proofs.Overrides.Sharing
import ShapeContract.Proofs.Overrides.Writing
import ShapeContract.Proofs.Rule.Eased

/-!
# The store before anything is attached

The base tree is stored first, then copies of the leaves that stay, then the appended trees, then the
target. The copies have lent edges to the children of their leaves; nothing else leads back to the
base tree, and the trees stand apart: `Overrides.stage_standing`.
-/

set_option autoImplicit false

namespace ShapeContract

/-- Entries with values of their own stay so. -/
theorem Fields.nodup_values_putAll {fs more : Fields Nat} (own : (fs.map Prod.snd).Nodup)
    (ownMore : (more.map Prod.snd).Nodup)
    (apart : ∀ e ∈ fs, ∀ d ∈ more, e.2 ≠ d.2) : ((fs.putAll more).map Prod.snd).Nodup := by
  have put : ∀ {fs : Fields Nat} (name : String) {x : Nat}, (fs.map Prod.snd).Nodup →
      (∀ e ∈ fs, e.2 ≠ x) → ((fs.put name x).map Prod.snd).Nodup := by
    intro fs name x own fresh
    induction fs with
    | nil => simp [Fields.put]
    | cons head rest ih =>
      obtain ⟨other, y⟩ := head
      obtain ⟨apart, ownRest⟩ := List.nodup_cons.1 own
      rw [Fields.put]
      split
      · refine List.nodup_cons.2 ⟨?_, ownRest⟩
        rintro inside
        obtain ⟨e, inRest, same⟩ := List.mem_map.1 inside
        exact fresh e (List.mem_cons_of_mem _ inRest) same
      · refine List.nodup_cons.2 ⟨?_, ih ownRest fun e inside => fresh e (List.mem_cons_of_mem _ inside)⟩
        rintro inside
        obtain ⟨e, inPut, same⟩ := List.mem_map.1 inside
        rcases Fields.mem_put inPut with old | rfl
        · exact apart (List.mem_map.2 ⟨e, old, same⟩)
        · exact fresh (other, y) List.mem_cons_self same.symm
  induction more generalizing fs with
  | nil => exact own
  | cons d rest ih =>
    obtain ⟨notIn, ownRest⟩ := List.nodup_cons.1 ownMore
    refine ih (put d.1 own fun e inside => apart e inside d List.mem_cons_self) ownRest ?_
    intro e inside f later
    rcases Fields.mem_put inside with old | rfl
    · exact apart e old f (List.mem_cons_of_mem _ later)
    · exact fun same => notIn (List.mem_map.2 ⟨f, later, same.symm⟩)

namespace NodeStore

variable {s : NodeStore} {start : Nat}

/-! ## Walks through a stored tree -/

/-- A walk that starts in a region closed under children ends in it. -/
theorem walk_closed (zone : Nat → Prop)
    (closed : ∀ k x c, zone k → s.child? k x = some c → zone c) {q : List String} :
    ∀ {i k : Nat}, zone i → s.walk i q = some k → zone k := by
  induction q with
  | nil => exact fun inside reached => Option.some.inj reached ▸ inside
  | cons x rest ih =>
    intro i k inside reached
    obtain ⟨c, child, further⟩ := Option.bind_eq_some_iff.1 reached
    exact ih (closed i x c inside child) further

theorem edge_of_child? {k c : Nat} {x : String} (child : s.child? k x = some c) :
    ∃ n, s[k]? = some n ∧ (x, c) ∈ n.children.getD [] := by
  obtain ⟨n, found, get⟩ := Option.bind_eq_some_iff.1 child
  exact ⟨n, found, Fields.mem_of_get? get⟩

/-- A walk from the root of a stored tree stays among the tree's own nodes. -/
theorem Laid.walk_within {r : Rule} (laid : Laid s start r) {q : List String} {k : Nat}
    (reached : s.walk (start + r.parts) q = some k) : start ≤ k ∧ k ≤ start + r.parts := by
  refine walk_closed (fun k => start ≤ k ∧ k ≤ start + r.parts) ?_
    ⟨Nat.le_add_right _ _, Nat.le_refl _⟩ reached
  intro k x c inside child
  obtain ⟨n, found, edge⟩ := edge_of_child? child
  exact laid.edges k n inside.1 inside.2 found _ edge

/-- The same from the root of one field. -/
theorem LaidFields.walk_within {cs : List (String × Rule)} (laid : LaidFields s start cs)
    {e : String × Nat} (inside : e ∈ fieldsAt start cs) {q : List String} {k : Nat}
    (reached : s.walk e.2 q = some k) : start ≤ k ∧ k < start + Rule.partsOfFields cs := by
  refine walk_closed (fun k => start ≤ k ∧ k < start + Rule.partsOfFields cs) ?_
    (fieldsAt_within e inside) reached
  intro k x c inside child
  obtain ⟨n, found, edge⟩ := edge_of_child? child
  exact laid.edges k n inside.1 inside.2 found _ edge

/-- The children of a stored root are where the layout puts its fields. -/
theorem child?_of_laid {f : Facets} {items : Option Rule} {cs : List (String × Rule)}
    (laid : Laid s start ⟨f, items, some cs⟩) {x : String} {c : Nat}
    (child : s.child? (start + (Rule.mk f items (some cs)).parts) x = some c) :
    (x, c) ∈ fieldsAt (start + Rule.partsOfItems items) cs := by
  obtain ⟨n, found, edge⟩ := edge_of_child? child
  obtain rfl := Option.some.inj (laid.node.symm.trans found)
  exact edge

mutual

/-- No node of a stored tree is reached in two ways. -/
theorem Laid.walk_unique : ∀ {r : Rule} {start : Nat}, Laid s start r →
    ∀ {q q' : List String} {k : Nat}, s.walk (start + r.parts) q = some k →
      s.walk (start + r.parts) q' = some k → q = q'
  | ⟨f, items, none⟩, start, laid, q, q', k, reached, reached' => by
    have childless (x : String) : s.child? (start + (Rule.mk f items none).parts) x = none := by
      rw [child?, laid.node]
      rfl
    cases q <;> cases q' <;> simp_all [walk]
  | ⟨f, items, some cs⟩, start, laid, q, q', k, reached, reached' => by
    have laidFields : LaidFields s (start + Rule.partsOfItems items) cs := laid.2.1
    -- What is reached through a child is not the root.
    have inner : ∀ {x : String} {rest : List String},
        s.walk (start + (Rule.mk f items (some cs)).parts) (x :: rest) = some k →
          ∃ c, (x, c) ∈ fieldsAt (start + Rule.partsOfItems items) cs ∧ s.walk c rest = some k ∧
            k ≠ start + (Rule.mk f items (some cs)).parts := by
      intro x rest reached
      obtain ⟨c, child, further⟩ := Option.bind_eq_some_iff.1 reached
      have edge := child?_of_laid laid child
      refine ⟨c, edge, further, ?_⟩
      have within := laidFields.walk_within edge further
      simp only [Rule.parts, Rule.partsOfChildren]
      omega
    cases q with
    | nil =>
      cases q' with
      | nil => rfl
      | cons x rest =>
        obtain ⟨_, _, _, other⟩ := inner reached'
        exact absurd (Option.some.inj reached).symm other
    | cons x rest =>
      obtain ⟨c, edge, further, other⟩ := inner reached
      cases q' with
      | nil => exact absurd (Option.some.inj reached').symm other
      | cons x' rest' =>
        obtain ⟨c', edge', further', _⟩ := inner reached'
        obtain ⟨same, rfl⟩ := LaidFields.walk_unique laidFields edge edge' further further'
        rw [(Prod.mk.inj same).1]

/-- Two walks through stored fields that end at one node took the same way. -/
theorem LaidFields.walk_unique : ∀ {cs : List (String × Rule)} {start : Nat},
    LaidFields s start cs → ∀ {e e' : String × Nat}, e ∈ fieldsAt start cs →
      e' ∈ fieldsAt start cs → ∀ {q q' : List String} {k : Nat}, s.walk e.2 q = some k →
        s.walk e'.2 q' = some k → e = e' ∧ q = q'
  | [], _, _, _, _, inside, _, _, _, _, _, _ => nomatch inside
  | (name, r) :: rest, start, laid, e, e', inside, inside', q, q', k, reached, reached' => by
    rcases List.mem_cons.1 inside with rfl | later <;> rcases List.mem_cons.1 inside' with rfl | later'
    · exact ⟨rfl, laid.1.walk_unique reached reached'⟩
    · have first := laid.1.walk_within reached
      have second := laid.2.walk_within later' reached'
      omega
    · have first := laid.1.walk_within reached'
      have second := laid.2.walk_within later reached
      omega
    · exact laid.2.walk_unique later later' reached reached'

end

/-! ## Leaves of a stored tree -/

/-- A leaf by path, as a node and as a rule. -/
def LeafAt (s : NodeStore) (e : String × Nat) (l : String × Rule) : Prop :=
  e.1 = l.1 ∧ ∃ start, Laid s start l.2 ∧ e.2 = start + l.2.parts

mutual

/-- The leaves read off the store are the leaves of the rule, path by path. -/
theorem Laid.leaves_flatten : ∀ {r : Rule} {start : Nat}, Laid s start r → ∀ depth path,
    r.parts < depth →
      List.Forall₂ (LeafAt s) (s.leavesFrom depth path (start + r.parts)) (Rule.flattenFrom path r)
  | _, _, _, 0, _, deep => absurd deep (Nat.not_lt_zero _)
  | ⟨f, items, none⟩, start, laid, depth + 1, path, _ => by
    rw [leavesFrom_succ depth path laid.node]
    exact .nil
  | ⟨f, items, some cs⟩, start, laid, depth + 1, path, deep => by
    rw [leavesFrom_succ depth path laid.node]
    have laidFields : LaidFields s (start + Rule.partsOfItems items) cs := laid.2.1
    refine laidFields.leaves_flatten depth path ?_
    simp only [Rule.parts, Rule.partsOfChildren] at deep
    omega

/-- The same below the fields of an object. -/
theorem LaidFields.leaves_flatten : ∀ {cs : List (String × Rule)} {start : Nat},
    LaidFields s start cs → ∀ depth path, Rule.partsOfFields cs ≤ depth →
      List.Forall₂ (LeafAt s) (s.leavesBelow depth path (fieldsAt start cs))
        (Rule.flattenFields path cs)
  | [], _, _, _, _, _ => .nil
  | (name, ⟨f, items, children⟩) :: rest, start, laid, depth, path, deep => by
    simp only [Rule.partsOfFields] at deep
    have others := LaidFields.leaves_flatten laid.2 depth path (by omega)
    have below := Laid.leaves_flatten laid.1 depth (extendPath path name) (by omega)
    have itself : LeafAt s (extendPath path name, start + (Rule.mk f items children).parts)
        (extendPath path name, ⟨f, items, children⟩) := ⟨rfl, start, laid.1, rfl⟩
    rw [fieldsAt, leavesBelow, List.flatMap_cons, Rule.flattenFields]
    refine List.rel_append ?_ others
    rw [laid.1.node]
    cases children with
    | none =>
      rw [Rule.leaf]
      simpa using itself
    | some cs =>
      have some : (Option.map (fieldsAt (start + Rule.partsOfItems items)) (some cs)).getD [] ≠ [] ↔
          cs ≠ [] := by
        cases cs <;> simp [fieldsAt]
      rw [Rule.leaf]
      dsimp only [Rule.facets]
      by_cases inner : f.type = .object ∧ cs ≠ []
      · rw [if_pos inner, if_pos ⟨inner.1, some.2 inner.2⟩]
        exact below
      · rw [if_neg inner, if_neg fun both => inner ⟨both.1, some.1 both.2⟩]
        exact .cons itself .nil

end

end NodeStore

namespace Overrides

open NodeStore

/-! ## Copies -/

/-- A copy leads where its leaf leads. -/
def Copied (t : NodeStore) (e c : String × Nat) : Prop :=
  c.1 = e.1 ∧ ∃ n m, t[e.2]? = some n ∧ t[c.2]? = some m ∧ m.children = n.children

/-- Copies take up the next places, in order. -/
theorem copyLeaves_spec (o : Overrides) (kept : Fields Nat) : ∀ {s : NodeStore} (copies : Fields Nat),
    (∀ e ∈ kept, ∃ n, s[e.2]? = some n) →
      ∃ copies' nodes, kept.foldl (fun (acc : Fields Nat × NodeStore) e =>
          (acc.1 ++ [(e.1, (o.copyLeaf acc.2 e.1 e.2).1)], (o.copyLeaf acc.2 e.1 e.2).2))
          (copies, s) = (copies ++ copies', s ++ nodes) ∧
        copies'.map Prod.snd = List.range' s.length kept.length ∧ nodes.length = kept.length ∧
        List.Forall₂ (Copied (s ++ nodes)) kept copies' := by
  induction kept with
  | nil => exact fun copies _ => ⟨[], [], by simp, rfl, rfl, .nil⟩
  | cons e rest ih =>
    intro s copies there
    obtain ⟨n, found⟩ := there e List.mem_cons_self
    let copy := o.leafCopy e.1 n
    have copied : o.copyLeaf s e.1 e.2 = (s.length, s ++ [copy]) := copyLeaf_of_found o e.1 found
    obtain ⟨copies', nodes, result, places, count, others⟩ :=
      @ih (s ++ [copy]) (copies ++ [(e.1, s.length)]) fun f inside =>
        (there f (List.mem_cons_of_mem _ inside)).imp fun _ => getElem?_append_of_some _
    refine ⟨(e.1, s.length) :: copies', copy :: nodes, ?_, ?_, ?_, .cons ⟨rfl, n, copy, ?_, ?_, rfl⟩ ?_⟩
    · rw [List.foldl_cons]
      simp only [copied]
      rw [result]
      simp
    · rw [List.map_cons, places, List.length_append, List.length_cons]
      rfl
    · rw [List.length_cons, List.length_cons, count]
    · exact getElem?_append_of_some _ found
    · rw [List.getElem?_append_right (Nat.le_refl _), Nat.sub_self]
      rfl
    · rwa [List.append_assoc] at others

/-! ## The names that are lent -/

/-- The paths of the adapted tree in the order in which they are attached, each with the names below
it at which it shares a node with the base tree: those of the children of a leaf that stays. -/
def lentNames (o : Overrides) (base : Rule) : Fields (List String) :=
  Fields.putAll
    (((base.flatten "").filter fun e => o.keeps e.1).map fun e => (e.1, e.2.kids.map Prod.fst))
    (o.appended.map fun e => (e.1, []))

/-- Storing fields keeps their names. -/
theorem names_fieldsAt (start : Nat) (cs : List (String × Rule)) :
    (fieldsAt start cs).map Prod.fst = cs.map Prod.fst := by
  induction cs generalizing start with
  | nil => rfl
  | cons e rest ih => exact congrArg (e.1 :: ·) (ih _)

/-- The places of stored trees are different. -/
theorem nodup_fieldsAt (start : Nat) (cs : List (String × Rule)) :
    ((fieldsAt start cs).map Prod.snd).Nodup := by
  induction cs generalizing start with
  | nil => exact .nil
  | cons e rest ih =>
    refine List.nodup_cons.2 ⟨fun inside => ?_, ih _⟩
    obtain ⟨f, later, same⟩ := List.mem_map.1 inside
    have above := (fieldsAt_within f later).1
    omega

/-- The stored children of a root, with none read as no fields. -/
theorem kids_fieldsAt (first : Nat) (r : Rule) :
    (r.children.map (fieldsAt (first + Rule.partsOfItems r.items))).getD [] =
      fieldsAt (first + Rule.partsOfItems r.items) r.kids := by
  obtain ⟨f, items, children⟩ := r
  cases children <;> rfl

theorem parts_kids (r : Rule) :
    Rule.partsOfItems r.items + Rule.partsOfFields r.kids = r.parts := by
  obtain ⟨f, items, children⟩ := r
  cases children <;> rfl

/-! ## The store -/

/-- The store in which everything stands and nothing has been attached yet: the base tree, from its
end on the copies, the appended trees, and the target. -/
structure Standing (o : Overrides) (base : Rule) (appended : Fields Rule) (start target : Nat)
    (copies : Fields Nat) (u : NodeStore) : Prop where
  above : base.parts < start
  target_eq : target = start + Rule.partsOfFields appended
  length : u.length = target + 1
  tree : Laid u 0 base
  places : copies.map Prod.snd = List.range' (base.parts + 1) (start - (base.parts + 1))
  copies : List.Forall₂ (fun c (l : String × Rule) => c.1 = l.1 ∧ ∃ first m,
    first + l.2.parts ≤ base.parts ∧ u[c.2]? = some m ∧
      m.children.getD [] = fieldsAt (first + Rule.partsOfItems l.2.items) l.2.kids)
    copies ((base.flatten "").filter fun e => o.keeps e.1)
  added : LaidFields u start appended
  vacant : u[target]? = some vacant

/-- The store after the overrides have been applied to the tree that stands at its beginning; what
fails changes nothing. -/
def storeAfter (o : Overrides) (base : Rule) : NodeStore :=
  match o.checkAll, appendedRules o.appended with
  | .ok _, .ok appended =>
    let (root, s) := NodeStore.load [] base
    let kept := (s.leaves root).filter fun e => o.keeps e.1
    let (copies, s) := kept.foldl (fun (acc : Fields Nat × NodeStore) e =>
      let (i, s) := o.copyLeaf acc.2 e.1 e.2
      (acc.1 ++ [(e.1, i)], s)) ([], s)
    let (added, s) := NodeStore.loadFields s appended
    let (target, s) := s.alloc ⟨Rule.empty.facets, none, some []⟩
    (Fields.putAll copies added).foldl (fun s e => s.attach target e.1 e.2) s
  | _, _ => (NodeStore.load [] base).2

/-- Overrides that check and whose definitions read leave the base, the copies, the appended rules
and the new root side by side in the store. -/
theorem exists_standing (o : Overrides) (base : Rule) {appended : Fields Rule} {checked : Unit}
    (checks : o.checkAll = .ok checked) (rules : appendedRules o.appended = .ok appended) :
    ∃ start target copies u, Standing o base appended start target copies u ∧
      o.storeAfter base =
        (copies.putAll (fieldsAt start appended)).foldl (fun s e => s.attach target e.1 e.2) u ∧
      ∀ k ≤ base.parts, u[k]? = (NodeStore.load [] base).2[k]? := by
  obtain ⟨s, loaded, length, laid⟩ := load_spec base []
  rw [List.nil_append, List.length_nil] at laid
  rw [List.nil_append, List.length_nil, Nat.zero_add] at loaded
  let kept := (s.leaves base.parts).filter fun e => o.keeps e.1
  have deep : base.parts < s.length + 1 := by omega
  have leaves : List.Forall₂ (LeafAt s) kept ((base.flatten "").filter fun e => o.keeps e.1) := by
    have all := Laid.leaves_flatten laid (s.length + 1) "" deep
    rw [Nat.zero_add] at all
    refine List.rel_filter ?_ (Fields.forall₂_putAll (fun _ _ leaf => leaf.1) .nil all)
    rintro e l ⟨same, -⟩
    exact Iff.of_eq (congrArg (fun path => o.keeps path = true) same)
  have there : ∀ e ∈ kept, ∃ n, s[e.2]? = some n := by
    intro e inside
    obtain ⟨l, -, -, first, laidL, same⟩ := exists_of_forall₂ leaves inside
    exact ⟨_, same ▸ laidL.node⟩
  obtain ⟨copies, nodes, result, places, count, copied⟩ := o.copyLeaves_spec kept [] there
  obtain ⟨more, added, lengthA, laidA⟩ := loadFields_spec appended (s ++ nodes)
  rw [List.nil_append] at result
  let start := (s ++ nodes).length
  let target := (s ++ nodes ++ more).length
  let u := s ++ nodes ++ more ++ [vacant]
  have whole : u = s ++ (nodes ++ more ++ [vacant]) := by simp [u]
  have lengths : start = base.parts + 1 + nodes.length := by simp [start, length]
  refine ⟨start, target, copies, u, ?_, ?_, ?_⟩
  · refine ⟨by omega, ?_, ?_, ?_, ?_, ?_, laidA.append [vacant], ?_⟩
    · simp only [target, start, List.length_append, lengthA]
    · simp only [u, target, List.length_append, List.length_singleton]
    · rw [whole]
      exact laid.append _
    · rw [places, length, lengths, count]
      congr 1
      omega
    · refine (forall₂_through ?_ leaves copied).flip
      rintro e l c ⟨same, first, laidL, place⟩ ⟨same', n, m, found, found', children⟩
      obtain ⟨inside, -⟩ := List.getElem?_eq_some_iff.1 laidL.node
      have node : (s ++ nodes)[e.2]? = some _ := getElem?_append_of_some _ (place ▸ laidL.node)
      obtain rfl := Option.some.inj (node.symm.trans found)
      refine ⟨same'.trans same, first, m, by omega, ?_, ?_⟩
      · have later : u = s ++ nodes ++ (more ++ [vacant]) := List.append_assoc ..
        exact later ▸ getElem?_append_of_some _ found'
      · rw [children]
        exact kids_fieldsAt first l.2
    · exact List.getElem?_concat_length
  · unfold storeAfter
    rw [checks, rules]
    dsimp only
    rw [loaded]
    dsimp only
    rw [result]
    dsimp only
    rw [added]
    rfl
  · intro k old
    rw [loaded, whole]
    exact List.getElem?_append_left (by omega)

/-! ## The trees stand apart -/

namespace Standing

variable {o : Overrides} {base : Rule} {appended : Fields Rule} {start target : Nat}
  {copies : Fields Nat} {u : NodeStore} {k c : Nat} {x : String}

/-- The copies stand right after the base, and nothing else stands there. -/
theorem mem_copies (std : Standing o base appended start target copies u) :
    (∃ e ∈ copies, e.2 = k) ↔ base.parts < k ∧ k < start := by
  have above := std.above
  rw [← List.mem_map, std.places, List.mem_range'_1]
  omega

/-- Base nodes have base children … -/
theorem child?_base (std : Standing o base appended start target copies u) (old : k ≤ base.parts)
    (child : u.child? k x = some c) : c ≤ base.parts := by
  obtain ⟨n, found, edge⟩ := edge_of_child? child
  have within := std.tree.edges k n (Nat.zero_le k) (by omega) found _ edge
  omega

/-- … copies share theirs with the base … -/
theorem child?_copy (std : Standing o base appended start target copies u) (new : base.parts < k)
    (copy : k < start) (child : u.child? k x = some c) : c ≤ base.parts := by
  obtain ⟨e, inside, rfl⟩ := std.mem_copies.2 ⟨new, copy⟩
  obtain ⟨l, -, -, first, m, within, found, children⟩ := exists_of_forall₂ std.copies inside
  obtain ⟨n, found', edge⟩ := edge_of_child? child
  obtain rfl := Option.some.inj (found.symm.trans found')
  rw [children] at edge
  have bounds := fieldsAt_within _ edge
  have total := parts_kids l.2
  omega

/-- … and appended nodes lead to appended nodes. -/
theorem child?_added (std : Standing o base appended start target copies u) (low : start ≤ k)
    (high : k < target) (child : u.child? k x = some c) : start ≤ c ∧ c < target := by
  obtain ⟨n, found, edge⟩ := edge_of_child? child
  exact std.target_eq ▸ std.added.edges k n low (std.target_eq ▸ high) found _ edge

/-- The new root starts without children. -/
theorem child?_target (std : Standing o base appended start target copies u) :
    u.child? target x = none := by
  rw [child?, std.vacant]
  rfl

/-- The edges that lead back to the base tree. -/
def lent (base : Rule) (u : NodeStore) (k : Nat) (x : String) : Prop :=
  base.parts < k ∧ ∃ c ≤ base.parts, u.child? k x = some c

/-- Only copies lead back to the base, never an appended rule or the new root. -/
theorem lt_of_lent (std : Standing o base appended start target copies u) (isLent : lent base u k x) :
    k < start := by
  obtain ⟨-, c, old, child⟩ := isLent
  have above := std.above
  have inside : k < target + 1 := by
    obtain ⟨n, found, -⟩ := edge_of_child? child
    exact std.length ▸ (List.getElem?_eq_some_iff.1 found).1
  by_contra far
  by_cases here : k = target
  · rw [here, std.child?_target] at child
    cases child
  · have within := std.child?_added (Nat.le_of_not_lt far) (by omega) child
    omega

/-- A walk from a root to a new node stays at a copy or at the target, or in an appended tree. -/
theorem walk_new (std : Standing o base appended start target copies u) {r : Nat}
    (root : r = target ∨ ∃ e ∈ copies.putAll (fieldsAt start appended), e.2 = r) {q : List String}
    (reached : u.walk r q = some k) (new : base.parts < k) :
    (q = [] ∧ r = k ∧ (k < start ∨ k = target)) ∨
      ∃ e ∈ fieldsAt start appended, e.2 = r ∧ start ≤ k ∧ k < target := by
  rcases root with rfl | ⟨e, inside, rfl⟩
  · cases q with
    | nil => exact .inl ⟨rfl, Option.some.inj reached, .inr (Option.some.inj reached).symm⟩
    | cons x rest =>
      rw [walk, std.child?_target] at reached
      cases reached
  · rcases Fields.mem_putAll inside with copy | added
    · have place := std.mem_copies.1 ⟨e, copy, rfl⟩
      cases q with
      | nil =>
        obtain rfl := Option.some.inj reached
        exact .inl ⟨rfl, rfl, .inl place.2⟩
      | cons x rest =>
        obtain ⟨d, child, further⟩ := Option.bind_eq_some_iff.1 reached
        have old := walk_closed (· ≤ base.parts) (fun _ _ _ => std.child?_base)
          (std.child?_copy place.1 place.2 child) further
        exact absurd old (Nat.not_le.2 new)
    · have within := std.added.walk_within added reached
      rw [← std.target_eq] at within
      exact .inr ⟨e, added, rfl, within⟩

/-- Every root put under the new one is a copy or an appended rule, never a base node. -/
theorem root_within (std : Standing o base appended start target copies u) {e : String × Nat}
    (inside : e ∈ copies.putAll (fieldsAt start appended)) : base.parts < e.2 ∧ e.2 < target := by
  have above := std.above
  have last := std.target_eq
  rcases Fields.mem_putAll inside with copy | added
  · have place := std.mem_copies.1 ⟨e, copy, rfl⟩
    omega
  · have within := fieldsAt_within e added
    omega

/-- What waits is apart from the target and from each other. -/
theorem separate (std : Standing o base appended start target copies u) :
    Separate base.parts target (lent base u)
      (fun k => ∃ e ∈ copies.putAll (fieldsAt start appended), e.2 = k) u := by
  have above := std.above
  have last := std.target_eq
  have length := std.length
  refine ⟨fun _ _ _ => std.child?_base, ?_, ⟨by omega, by omega, ?_⟩, ?_, ?_, ?_, ?_, ?_, ?_⟩
  · intro k x c child
    obtain ⟨n, found, -⟩ := edge_of_child? child
    have inside : k < u.length := (List.getElem?_eq_some_iff.1 found).1
    by_cases old : k ≤ base.parts
    · have within := std.child?_base old child
      omega
    · by_cases copy : k < start
      · have within := std.child?_copy (by omega) copy child
        omega
      · by_cases here : k = target
        · rw [here, std.child?_target] at child
          cases child
        · have within := std.child?_added (by omega) (by omega) child
          omega
  · rintro ⟨e, inside, same⟩
    have within := std.root_within inside
    omega
  · rintro _ ⟨e, inside, rfl⟩
    have within := std.root_within inside
    omega
  · intro r r' root root' q q' k new reached reached'
    rcases std.walk_new root reached new with ⟨rfl, rfl, place⟩ | ⟨e, added, rfl, low, high⟩ <;>
      rcases std.walk_new root' reached' new with ⟨rfl, rfl, place'⟩ | ⟨e', added', rfl, low', high'⟩
    · exact ⟨rfl, rfl⟩
    · exact absurd place (by clear root root'; omega)
    · exact absurd place' (by clear root root'; omega)
    · obtain ⟨rfl, rfl⟩ := std.added.walk_unique added added' reached reached'
      exact ⟨rfl, rfl⟩
  · exact fun k x c new child old => ⟨new, c, old, child⟩
  · exact fun r _ x isLent => isLent.2
  · intro r waiting q k x reached isLent
    rcases std.walk_new (.inr waiting) reached isLent.1 with ⟨rfl, -⟩ | ⟨-, -, -, low, -⟩
    · rfl
    · exact absurd (std.lt_of_lent isLent) (Nat.not_lt.2 low)
  · intro k x isLent
    have copy := std.lt_of_lent isLent
    exact ⟨isLent.1, by omega⟩

/-- Nothing has been attached yet. -/
theorem stage (std : Standing o base appended start target copies u) :
    Stage base.parts target (lent base u) [] (copies.putAll (fieldsAt start appended)) u := by
  refine ⟨std.separate, fun k q x isLent => ⟨?_, ?_⟩⟩
  · rintro ⟨reached, -⟩
    rcases std.walk_new (.inl rfl) reached isLent.1 with ⟨-, rfl, copy | -⟩ | ⟨-, -, -, low, -⟩
    · have last := std.target_eq
      omega
    · exact absurd (std.lt_of_lent isLent) (by have last := std.target_eq; omega)
    · exact absurd (std.lt_of_lent isLent) (Nat.not_lt.2 low)
  · rintro ⟨e, ⟨before, after, split, -⟩, -⟩
    exact absurd split.symm (by simp)

/-- No node is put under two names. -/
theorem nodup (std : Standing o base appended start target copies u) :
    ((copies.putAll (fieldsAt start appended)).map Prod.snd).Nodup := by
  refine Fields.nodup_values_putAll ?_ (nodup_fieldsAt start appended) ?_
  · rw [std.places]
    exact List.nodup_range'
  · intro e copy d added
    have place := std.mem_copies.1 ⟨e, copy, rfl⟩
    have within := fieldsAt_within d added
    omega

/-- The copies lend the names of the children of their leaves. -/
theorem lentNames (std : Standing o base appended start target copies u)
    (rules : appendedRules o.appended = .ok appended) :
    List.Forall₂ (fun e (n : String × List String) => e.1 = n.1 ∧ ∀ x, lent base u e.2 x ↔ x ∈ n.2)
      (copies.putAll (fieldsAt start appended)) (o.lentNames base) := by
  refine Fields.forall₂_putAll (fun _ _ same => same.1) ?_ ?_
  · rw [List.forall₂_map_right_iff]
    have new : ∀ c ∈ copies, base.parts < c.2 := fun c inside =>
      (std.mem_copies.1 ⟨c, inside, rfl⟩).1
    refine ((List.forall₂_and_left copies _).2 ⟨new, std.copies⟩).imp ?_
    rintro ⟨path, i⟩ ⟨path', r⟩ ⟨new, same, first, m, within, found, children⟩
    refine ⟨same, fun x => ?_⟩
    let edges := fieldsAt (first + Rule.partsOfItems r.items) r.kids
    have child : u.child? i x = Fields.get? edges x := by
      rw [child?, found, Option.bind_some, children]
    have known : x ∈ r.kids.map Prod.fst ↔ ∃ c, Fields.get? edges x = some c := by
      rw [← names_fieldsAt (first + Rule.partsOfItems r.items), ← Option.isSome_iff_exists]
      exact (Fields.contains_iff.trans (by simp [edges])).symm
    rw [known, ← child]
    refine ⟨fun isLent => isLent.2.imp fun _ both => both.2, fun ⟨c, there⟩ => ⟨new, c, ?_, there⟩⟩
    have bounds := fieldsAt_within _ (Fields.mem_of_get? (child.symm.trans there))
    have total := parts_kids r
    simp only at within
    omega
  · rw [List.forall₂_map_right_iff]
    have none : ∀ e ∈ fieldsAt start appended, ∀ x, ¬lent base u e.2 x := fun e inside x isLent =>
      absurd (std.lt_of_lent isLent) (Nat.not_lt.2 (fieldsAt_within e inside).1)
    have same : List.Forall₂ Eq ((fieldsAt start appended).map Prod.fst) (o.appended.map Prod.fst) := by
      rw [List.forall₂_eq_eq_eq, names_fieldsAt]
      exact keys_appendedRules rules
    have names := List.forall₂_map_right_iff.1 (List.forall₂_map_left_iff.1 same)
    refine ((List.forall₂_and_left _ _).2 ⟨none, names⟩).imp ?_
    exact fun e d both => ⟨both.2, fun x => ⟨fun isLent => absurd isLent (both.1 x), nofun⟩⟩

end Standing

end Overrides

end ShapeContract
