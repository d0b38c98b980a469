import ShapeContract.Proofs.Fields
import ShapeContract.Proofs.Overrides.Layout
import ShapeContract.Proofs.Rule.Visible

/-!
# Overrides leave what is seen of the base tree

Attaching writes to nodes of the base tree, because copies of leaves share the nodes below them. The
nodes that can be reached for writing are the new ones and those below leaves that are no objects.
This set is closed under edges, so nothing else is ever written: `Overrides.applyShared_alike`.
-/

set_option autoImplicit false

namespace ShapeContract

namespace NodeStore

/-- The edges of a node to its children lead into a set of numbers. -/
def Leads (free : Nat → Prop) (n : StoredNode) : Prop := ∀ e ∈ n.children.getD [], free e.2

/-- A set of numbers that the edges of its nodes do not leave. -/
def Closed (free : Nat → Prop) (s : NodeStore) : Prop :=
  ∀ k n, free k → s[k]? = some n → Leads free n

/-- What writing may do to a store: change the nodes of a closed set, and add to it. -/
structure Writes (free : Nat → Prop) (s t : NodeStore) : Prop where
  closed : Closed free t
  same : ∀ k, ¬free k → t[k]? = s[k]?
  grows : s.length ≤ t.length

variable {free : Nat → Prop} {s t u : NodeStore}

theorem Writes.refl (closed : Closed free s) : Writes free s s :=
  ⟨closed, fun _ _ => rfl, Nat.le_refl _⟩

/-- Writing twice is writing. -/
theorem Writes.trans (first : Writes free s t) (second : Writes free t u) : Writes free s u :=
  ⟨second.closed, fun k taken => (second.same k taken).trans (first.same k taken),
    Nat.le_trans first.grows second.grows⟩

/-- New nodes stay free for writing. -/
theorem Writes.fresh (writes : Writes free s t) (fresh : ∀ k, s.length ≤ k → free k) :
    ∀ k, t.length ≤ k → free k :=
  fun k far => fresh k (Nat.le_trans writes.grows far)

/-- New nodes with edges into the set. -/
theorem writes_append (closed : Closed free s) (fresh : ∀ k, s.length ≤ k → free k)
    (more : NodeStore)
    (leads : ∀ k n, s.length ≤ k → (s ++ more)[k]? = some n → Leads free n) :
    Writes free s (s ++ more) := by
  refine ⟨?_, ?_, ?_⟩
  · intro k n isFree found
    by_cases old : k < s.length
    · rw [List.getElem?_append_left old] at found
      exact closed k n isFree found
    · exact leads k n (by omega) found
  · intro k taken
    have old : k < s.length := by
      by_contra new
      exact taken (fresh k (by omega))
    exact List.getElem?_append_left old
  · rw [List.length_append]
    omega

/-- A new node is written outside what was there. -/
theorem writes_alloc (closed : Closed free s) (fresh : ∀ k, s.length ≤ k → free k)
    {n : StoredNode} (leads : Leads free n) : Writes free s (s ++ [n]) := by
  refine writes_append closed fresh [n] ?_
  intro k m far found
  rw [List.getElem?_append_right far] at found
  exact List.mem_singleton.1 (List.mem_of_getElem? found) ▸ leads

/-- An edge between free nodes keeps the free nodes closed. -/
theorem writes_putChild (closed : Closed free s) {i c : Nat} (isFree : free i)
    (inner : free c) (name : String) : Writes free s (s.putChild i name c) := by
  refine ⟨?_, ?_, ?_⟩
  · intro k n freeK found
    unfold putChild at found
    rw [List.getElem?_modify] at found
    obtain ⟨m, before, after⟩ := Option.map_eq_some_iff.1 found
    have leads := closed k m freeK before
    split at after
    · subst after
      intro e inside
      rcases Fields.mem_put inside with old | rfl
      · exact leads e old
      · exact inner
    · exact after ▸ leads
  · intro k taken
    have other : i ≠ k := fun same => taken (same ▸ isFree)
    unfold putChild
    rw [List.getElem?_modify]
    simp only [if_neg other, id_map']
  · exact Nat.le_of_eq (List.length_modify ..).symm

/-- One step of attaching at a time, from a node of the set: it stays in the set. -/
theorem writes_attachAt (rest : List String) : ∀ {s : NodeStore}, Closed free s →
    (∀ k, s.length ≤ k → free k) → ∀ {i rule : Nat}, free i → free rule → ∀ first : String,
      Writes free s (s.attachAt i first rest rule) := by
  induction rest with
  | nil =>
    intro s closed _ i rule isFree inner first
    exact writes_putChild closed isFree inner first
  | cons next rest ih =>
    intro s closed fresh i rule isFree inner first
    unfold attachAt
    cases found : s.child? i first with
    | some c =>
      obtain ⟨n, node, child⟩ := Option.bind_eq_some_iff.1 found
      have edge : free c := closed i n isFree node _ (Fields.mem_of_get? child)
      exact ih closed fresh edge inner next
    | none =>
      have made : Writes free s (s ++ [⟨Rule.empty.facets, none, some []⟩]) :=
        writes_alloc closed fresh fun _ inside => nomatch inside
      have new : free s.length := fresh _ (Nat.le_refl _)
      have linked := writes_putChild made.closed isFree new first
      have both := made.trans linked
      exact both.trans (ih both.closed (both.fresh fresh) new inner next)

/-- Attaching below a free node writes to free nodes only. -/
theorem writes_attach (closed : Closed free s) (fresh : ∀ k, s.length ≤ k → free k)
    {root rule : Nat} (isFree : free root) (inner : free rule) (path : String) :
    Writes free s (s.attach root path rule) := by
  unfold attach
  cases segments path with
  | nil => exact Writes.refl closed
  | cons first rest => exact writes_attachAt rest closed fresh isFree inner first

/-- Attaching one entry after the other writes to free nodes only. -/
theorem writes_attachAll {root : Nat} (isFree : free root) (leaves : Fields Nat) :
    ∀ {s : NodeStore}, Closed free s → (∀ k, s.length ≤ k → free k) →
      (∀ e ∈ leaves, free e.2) →
      Writes free s (leaves.foldl (fun s e => s.attach root e.1 e.2) s) := by
  induction leaves with
  | nil => exact fun closed _ _ => Writes.refl closed
  | cons e rest ih =>
    intro s closed fresh inner
    have step := writes_attach closed fresh isFree (inner e List.mem_cons_self) e.1
    exact step.trans (ih step.closed (step.fresh fresh)
      fun other later => inner other (List.mem_cons_of_mem _ later))

/-- Stored trees have edges into what is new. -/
theorem writes_loadFields (closed : Closed free s) (fresh : ∀ k, s.length ≤ k → free k)
    (cs : List (String × Rule)) :
    ∃ more, loadFields s cs = (fieldsAt s.length cs, s ++ more) ∧ Writes free s (s ++ more) ∧
      ∀ e ∈ fieldsAt s.length cs, free e.2 := by
  obtain ⟨more, loaded, length, laid⟩ := loadFields_spec cs s
  refine ⟨more, loaded, writes_append closed fresh more ?_, ?_⟩
  · intro k n far found e inside
    obtain ⟨near, _⟩ := List.getElem?_eq_some_iff.1 found
    rw [List.length_append, length] at near
    exact fresh _ (laid.edges k n far near found e inside).1
  · intro e inside
    exact fresh _ (fieldsAt_within e inside).1

/-! Of a stored tree, what lies below leaves that are no objects may be written. -/

mutual

/-- The places below leaves that are no objects. -/
def Hidden (start : Nat) : Rule → Nat → Prop
  | ⟨_, _, none⟩, _ => False
  | ⟨f, items, some cs⟩, k =>
    if f.type = .object then HiddenFields (start + Rule.partsOfItems items) cs k
    else start + Rule.partsOfItems items ≤ k ∧
      k < start + Rule.partsOfItems items + Rule.partsOfFields cs

def HiddenFields (start : Nat) : List (String × Rule) → Nat → Prop
  | [], _ => False
  | (_, r) :: rest, k => Hidden start r k ∨ HiddenFields (start + r.parts + 1) rest k

end

mutual

/-- The hidden nodes of a tree are among its own. -/
theorem hidden_within {start k : Nat} : ∀ {r : Rule}, Hidden start r k →
    start + Rule.partsOfItems r.items ≤ k ∧ k < start + r.parts
  | ⟨_, _, none⟩, hidden => hidden.elim
  | ⟨f, items, some cs⟩, hidden => by
    simp only [Rule.parts, Rule.partsOfChildren]
    unfold Hidden at hidden
    split at hidden
    · have within := hiddenFields_within hidden
      constructor <;> omega
    · constructor <;> omega

/-- The hidden nodes of children are among theirs. -/
theorem hiddenFields_within {start k : Nat} : ∀ {cs : List (String × Rule)},
    HiddenFields start cs k → start ≤ k ∧ k < start + Rule.partsOfFields cs
  | [], hidden => hidden.elim
  | (_, r) :: rest, hidden => by
    simp only [Rule.partsOfFields]
    rcases hidden with first | later
    · have within := hidden_within first
      constructor <;> omega
    · have within := hiddenFields_within later
      constructor <;> omega

end

theorem Leads.mono {free more : Nat → Prop} {n : StoredNode} (leads : Leads free n)
    (sub : ∀ k, free k → more k) : Leads more n :=
  fun e inside => sub e.2 (leads e inside)

mutual

/-- No edge leads from a hidden node to one that is seen. -/
theorem Laid.closed {s : NodeStore} {start : Nat} : ∀ {r : Rule}, Laid s start r →
    Closed (Hidden start r) s
  | ⟨_, _, none⟩, _ => fun _ _ hidden => hidden.elim
  | ⟨f, items, some cs⟩, laid => by
    intro k n hidden found
    unfold Hidden at hidden
    split at hidden
    next object =>
      have leads := LaidFields.closed laid.2.1 k n hidden found
      exact leads.mono fun j inner => (if_pos object).mpr inner
    next other =>
      have leads := LaidFields.edges laid.2.1 k n hidden.1 hidden.2 found
      exact fun e inside => (if_neg other).mpr (leads e inside)

/-- The same below several children. -/
theorem LaidFields.closed {s : NodeStore} {start : Nat} : ∀ {cs : List (String × Rule)},
    LaidFields s start cs → Closed (HiddenFields start cs) s
  | [], _ => fun _ _ hidden => hidden.elim
  | (_, _) :: _, laid => by
    intro k n hidden found
    rcases hidden with first | later
    · exact (laid.1.closed k n first found).mono fun _ => Or.inl
    · exact (laid.2.closed k n later found).mono fun _ => Or.inr

end

/-- The root of a tree in the store is its last node. -/
theorem Laid.node {s : NodeStore} {start : Nat} {r : Rule} (laid : Laid s start r) :
    s[start + r.parts]? = some ⟨r.facets, r.items.map fun i => start + i.parts,
      r.children.map (fieldsAt (start + Rule.partsOfItems r.items))⟩ := by
  obtain ⟨f, items, children⟩ := r
  exact laid.2.2

/-- The leaves below some children. -/
def leavesBelow (s : NodeStore) (depth : Nat) (path : String) (es : List (String × Nat)) :
    Fields Nat :=
  es.flatMap fun e =>
    match s[e.2]? with
    | some c =>
      if c.facets.type = .object ∧ c.children.getD [] ≠ [] then
        s.leavesFrom depth (extendPath path e.1) e.2
      else [(extendPath path e.1, e.2)]
    | none => []

/-- The leaves below a node that is there are those below its children. -/
theorem leavesFrom_succ {s : NodeStore} (depth : Nat) (path : String) {i : Nat} {n : StoredNode}
    (found : s[i]? = some n) :
    s.leavesFrom (depth + 1) path i = s.leavesBelow depth path (n.children.getD []) := by
  rw [leavesFrom, found]
  rfl

/-- A node whose children may be written. -/
def IsLeaf (free : Nat → Prop) (s : NodeStore) (i : Nat) : Prop :=
  ∃ n, s[i]? = some n ∧ Leads free n

/-- A leaf among some nodes is one among more. -/
theorem IsLeaf.mono {free more : Nat → Prop} {s : NodeStore} {i : Nat} (leaf : IsLeaf free s i)
    (sub : ∀ k, free k → more k) : IsLeaf more s i := by
  obtain ⟨n, found, leads⟩ := leaf
  exact ⟨n, found, leads.mono sub⟩

/-- A node that is no object, or an object without children, is a leaf. -/
theorem Laid.isLeaf {s : NodeStore} {start : Nat} {r : Rule} (laid : Laid s start r)
    (end' : ¬(r.type = .object ∧
      (r.children.map (fieldsAt (start + Rule.partsOfItems r.items))).getD [] ≠ [])) :
    IsLeaf (Hidden start r) s (start + r.parts) := by
  refine ⟨_, laid.node, ?_⟩
  obtain ⟨f, items, children⟩ := r
  cases children with
  | none => exact fun _ inside => nomatch inside
  | some cs =>
    intro e inside
    by_cases object : f.type = .object
    · have none : fieldsAt (start + Rule.partsOfItems items) cs = [] := by
        by_contra some
        exact end' ⟨object, some⟩
      rw [show (Option.map (fieldsAt (start + Rule.partsOfItems items)) (some cs)).getD [] = []
        from none] at inside
      cases inside
    · exact (if_neg object).mpr (fieldsAt_within e inside)

mutual

/-- Every leaf of an object has only hidden nodes below it. -/
theorem Laid.leaves {s : NodeStore} {start : Nat} : ∀ {r : Rule}, Laid s start r →
    r.type = .object → ∀ depth path, ∀ leaf ∈ s.leavesFrom depth path (start + r.parts),
      IsLeaf (Hidden start r) s leaf.2
  | _, _, _, 0, _ => fun _ inside => nomatch inside
  | ⟨f, items, none⟩, laid, _, depth + 1, path => by
    rw [leavesFrom_succ depth path laid.node]
    exact fun _ inside => nomatch inside
  | ⟨f, items, some cs⟩, laid, object, depth + 1, path => by
    rw [leavesFrom_succ depth path laid.node]
    intro leaf inside
    have inner := LaidFields.leaves laid.2.1 depth path leaf inside
    exact inner.mono fun k hidden => (if_pos object).mpr hidden

/-- The same for the leaves of several children. -/
theorem LaidFields.leaves {s : NodeStore} {start : Nat} : ∀ {cs : List (String × Rule)},
    LaidFields s start cs → ∀ depth path,
      ∀ leaf ∈ s.leavesBelow depth path (fieldsAt start cs), IsLeaf (HiddenFields start cs) s leaf.2
  | [], _, _, _ => fun _ inside => nomatch inside
  | (name, r) :: rest, laid, depth, path => by
    intro leaf inside
    rw [fieldsAt, leavesBelow, List.flatMap_cons, List.mem_append] at inside
    rcases inside with first | later
    · rw [laid.1.node] at first
      simp only at first
      split at first
      next node =>
        exact (laid.1.leaves node.1 depth _ leaf first).mono fun _ => Or.inl
      next end' =>
        rw [List.mem_singleton.1 first]
        exact (laid.1.isLeaf end').mono fun _ => Or.inl
    · exact (laid.2.leaves depth path leaf later).mono fun _ => Or.inr

end

mutual

/-- A tree that is read after writing looks like the tree that was stored. -/
theorem Laid.read_alike {s t : NodeStore} {start : Nat} : ∀ {r : Rule}, Laid s start r →
    (∀ k, start ≤ k → k ≤ start + r.parts → ¬Hidden start r k → t[k]? = s[k]?) →
    ∀ depth, r.parts < depth → Rule.Alike (t.read depth (start + r.parts)) r
  | _, _, _, 0, deep => absurd deep (Nat.not_lt_zero _)
  | ⟨f, items, children⟩, laid, same, depth + 1, deep => by
    have root : t[start + (Rule.mk f items children).parts]? = _ :=
      (same _ (by omega) (by omega) fun hidden =>
        absurd (hidden_within hidden).2 (Nat.lt_irrefl _)).trans laid.node
    simp only [Rule.parts] at deep
    have parts : LaidItems t start items := by
      refine laid.1.congr fun k low high => same k low ?_ fun hidden => ?_
      · simp only [Rule.parts]
        omega
      · have above := (hidden_within hidden).1
        simp only at above
        omega
    have elements := parts.read_eq depth (by omega)
    rw [read, root]
    simp only
    cases children with
    | none =>
      show Rule.visible ⟨f, _, none⟩ = Rule.visible ⟨f, items, none⟩
      rw [elements]
    | some cs =>
      simp only [Rule.partsOfChildren] at deep
      by_cases object : f.type = .object
      · have kids := LaidFields.read_alike (t := t) laid.2.1 (fun k low high shown =>
          same k (by omega) (by simp only [Rule.parts, Rule.partsOfChildren]; omega)
            fun hidden => shown ((if_pos object).mp hidden)) depth (by omega)
        rw [← Rule.visibleFields_eq, ← Rule.visibleFields_eq] at kids
        unfold Rule.Alike
        rw [Rule.visible_of_object (r := ⟨f, _, _⟩) object,
          Rule.visible_of_object (r := ⟨f, _, _⟩) object, elements]
        exact congrArg (Rule.mk f items <| some ·) kids
      · unfold Rule.Alike
        rw [Rule.visible_of_not_object (r := ⟨f, _, _⟩) object,
          Rule.visible_of_not_object (r := ⟨f, _, _⟩) object, elements]

/-- What is seen of children is read unchanged from a store that differs in hidden nodes only. -/
theorem LaidFields.read_alike {s t : NodeStore} {start : Nat} : ∀ {cs : List (String × Rule)},
    LaidFields s start cs →
    (∀ k, start ≤ k → k < start + Rule.partsOfFields cs → ¬HiddenFields start cs k →
      t[k]? = s[k]?) →
    ∀ depth, Rule.partsOfFields cs ≤ depth →
      Fields.mapValues Rule.visible ((fieldsAt start cs).map fun e => (e.1, t.read depth e.2)) =
        Fields.mapValues Rule.visible cs
  | [], _, _, _, _ => rfl
  | (name, r) :: rest, laid, same, depth, deep => by
    simp only [Rule.partsOfFields] at same deep
    have first := laid.1.read_alike (t := t) (fun k low high shown =>
      same k low (by omega) fun hidden => hidden.elim shown fun later => by
        have above := (hiddenFields_within later).1
        omega) depth (by omega)
    have others := laid.2.read_alike (t := t) (fun k low high shown =>
      same k (by omega) (by omega) fun hidden => hidden.elim (fun before => by
        have under := (hidden_within before).2
        omega) shown) depth (by omega)
    rw [fieldsAt, List.map_cons, Fields.mapValues_cons, Fields.mapValues_cons, first, others]

end

end NodeStore

namespace Overrides

open NodeStore

/-- Appended rules stand under the names of their definitions. -/
theorem keys_appendedRules {definitions : Fields Value} {rules : Fields Rule}
    (read : appendedRules definitions = .ok rules) : rules.keys = definitions.keys := by
  induction definitions generalizing rules with
  | nil => cases read; rfl
  | cons e rest ih =>
    obtain ⟨path, d⟩ := e
    rw [appendedRules] at read
    cases head : Rule.ofDefinition d with
    | error e => rw [head] at read; cases read
    | ok r =>
      cases tail : appendedRules rest with
      | error e => rw [head, tail] at read; cases read
      | ok rs =>
        rw [head, tail] at read
        cases read
        exact congrArg (path :: ·) (ih tail)

/-- An adapted tree is made of selected leaves and appended rules. -/
theorem exists_of_apply {o : Overrides} {tree adapted : Rule} (made : o.apply tree = .ok adapted) :
    ∃ checked rules, o.checkAll = .ok checked ∧ appendedRules o.appended = .ok rules ∧
      adapted = build ((o.selectLeaves (tree.flatten "")).putAll rules) := by
  unfold apply effective at made
  cases checks : o.checkAll with
  | error e => rw [checks] at made; cases made
  | ok checked =>
    cases read : appendedRules o.appended with
    | error e => rw [checks, read] at made; cases made
    | ok rules =>
      rw [checks, read] at made
      cases made
      exact ⟨checked, rules, rfl, rfl, rfl⟩

/-- The copy of a leaf node. -/
def leafCopy (o : Overrides) (path : String) (n : StoredNode) : StoredNode :=
  ⟨(o.adjust path ⟨n.facets, none, none⟩).facets, n.items, n.children⟩

/-- A leaf that is there is copied to a new node. -/
theorem copyLeaf_of_found (o : Overrides) (path : String) {s : NodeStore} {i : Nat} {n : StoredNode}
    (found : s[i]? = some n) : o.copyLeaf s path i = (s.length, s ++ [o.leafCopy path n]) := by
  unfold copyLeaf
  rw [found]
  rfl

/-- Copies of leaves are new, and lead where the leaves lead. -/
theorem writes_copyLeaves (o : Overrides) {free : Nat → Prop} (kept : Fields Nat) :
    ∀ {s : NodeStore} (copies : Fields Nat), Closed free s → (∀ k, s.length ≤ k → free k) →
      (∀ e ∈ kept, IsLeaf free s e.2) → (∀ e ∈ copies, free e.2) →
      ∃ copies' t, kept.foldl (fun (acc : Fields Nat × NodeStore) e =>
          (acc.1 ++ [(e.1, (o.copyLeaf acc.2 e.1 e.2).1)], (o.copyLeaf acc.2 e.1 e.2).2))
          (copies, s) = (copies', t) ∧
        Writes free s t ∧ ∀ e ∈ copies', free e.2 := by
  induction kept with
  | nil => exact fun copies closed _ _ inner => ⟨copies, _, rfl, Writes.refl closed, inner⟩
  | cons e rest ih =>
    intro s copies closed fresh leaves inner
    obtain ⟨n, found, leads⟩ := leaves e List.mem_cons_self
    let copy := o.leafCopy e.1 n
    have copied : o.copyLeaf s e.1 e.2 = (s.length, s ++ [copy]) := copyLeaf_of_found o e.1 found
    have made : Writes free s (s ++ [copy]) := writes_alloc closed fresh leads
    have later : ∀ f ∈ rest, IsLeaf free (s ++ [copy]) f.2 := by
      intro f inside
      obtain ⟨m, there, edges⟩ := leaves f (List.mem_cons_of_mem _ inside)
      exact ⟨m, getElem?_append_of_some _ there, edges⟩
    have inner' : ∀ f ∈ copies ++ [(e.1, s.length)], free f.2 := by
      intro f inside
      rcases List.mem_append.1 inside with old | new
      · exact inner f old
      · rw [List.mem_singleton.1 new]
        exact fresh _ (Nat.le_refl _)
    obtain ⟨copies', t, result, writes, all⟩ :=
      ih (copies ++ [(e.1, s.length)]) made.closed (made.fresh fresh) later inner'
    refine ⟨copies', t, ?_, made.trans writes, all⟩
    rw [List.foldl_cons]
    simp only [copied]
    exact result

/-! The base tree is stored first; what is free are hidden places and new ones. -/

/-- The places that overrides may write to. -/
def free (base : Rule) (k : Nat) : Prop :=
  HiddenFields (Rule.partsOfItems base.items) base.kids k ∨ base.parts < k

/-- The children of the base tree lie at the beginning of the store. -/
theorem laidFields_kids {s : NodeStore} {base : Rule} (laid : Laid s 0 base) :
    LaidFields s (Rule.partsOfItems base.items) base.kids := by
  obtain ⟨f, items, children⟩ := base
  cases children with
  | none => trivial
  | some cs => exact Nat.zero_add (Rule.partsOfItems items) ▸ laid.2.1

/-- The nodes that are free for writing are closed under edges. -/
theorem closed_free {s : NodeStore} {base : Rule} (laid : Laid s 0 base) (length : s.length = base.parts + 1) :
    Closed (free base) s := by
  intro k n isFree found
  rcases isFree with hidden | new
  · exact ((laidFields_kids laid).closed k n hidden found).mono fun _ => Or.inl
  · obtain ⟨inside, _⟩ := List.getElem?_eq_some_iff.1 found
    omega

/-- All new nodes are free. -/
theorem fresh_free {s : NodeStore} {base : Rule} (length : s.length = base.parts + 1) :
    ∀ k, s.length ≤ k → free base k :=
  fun _ far => Or.inr (by omega)

/-- What is listed as a leaf of the base tree is one. -/
theorem isLeaf_of_mem_leaves {s : NodeStore} {base : Rule} (laid : Laid s 0 base) :
    ∀ e ∈ s.leaves base.parts, IsLeaf (free base) s e.2 := by
  intro e inside
  have found := Fields.mem_ofList inside
  have node := laid.node
  rw [Nat.zero_add] at node
  rw [leavesFrom_succ _ _ node] at found
  obtain ⟨f, items, children⟩ := base
  cases children with
  | none => cases found
  | some cs =>
    have start : 0 + Rule.partsOfItems items = Rule.partsOfItems items := Nat.zero_add _
    have leaf := laid.2.1.leaves s.length "" e found
    exact leaf.mono fun k hidden => Or.inl (start ▸ hidden)

/-- Writing to free nodes leaves what is seen of the base tree. -/
theorem kidsAlike_of_writes {s t : NodeStore} {base : Rule} (laid : Laid s 0 base)
    (length : s.length = base.parts + 1) (writes : Writes (free base) s t) :
    Rule.KidsAlike (t.tree base.parts) base := by
  have within : ∀ k, HiddenFields (Rule.partsOfItems base.items) base.kids k →
      Rule.partsOfItems base.items ≤ k ∧ k < base.parts := by
    intro k hidden
    have bounds := hiddenFields_within hidden
    obtain ⟨f, items, children⟩ := base
    cases children with
    | none => exact hidden.elim
    | some cs => exact bounds
  have node : t[base.parts]? = _ :=
    (writes.same base.parts fun isFree => isFree.elim
      (fun hidden => absurd (within _ hidden).2 (Nat.lt_irrefl _)) (Nat.lt_irrefl _)).trans
      (Nat.zero_add base.parts ▸ laid.node)
  have size : Rule.partsOfItems base.items + Rule.partsOfFields base.kids = base.parts := by
    obtain ⟨f, items, children⟩ := base
    cases children <;> rfl
  have deep : Rule.partsOfFields base.kids ≤ t.length := by
    have grows := writes.grows
    omega
  have kids := (laidFields_kids laid).read_alike (t := t) (fun k _ high shown =>
    writes.same k fun isFree => isFree.elim shown fun new => by omega) t.length deep
  unfold NodeStore.tree Rule.KidsAlike
  rw [NodeStore.read, node]
  rw [← kids]
  obtain ⟨f, items, children⟩ := base
  cases children with
  | none => rfl
  | some cs =>
    simp only [Rule.kids, Option.map_some, Option.getD_some, Nat.zero_add]

/-- **Overrides leave what is seen of the base tree.** -/
theorem applyShared_alike (o : Overrides) (base : Rule) : Rule.KidsAlike (o.applyShared base) base := by
  unfold applyShared
  cases o.checkAll with
  | error e => rfl
  | ok _ =>
    cases appendedRules o.appended with
    | error e => rfl
    | ok appended =>
      obtain ⟨s, loaded, length, laid⟩ := load_spec base []
      rw [List.nil_append, List.length_nil] at laid
      rw [List.nil_append, List.length_nil, Nat.zero_add] at loaded
      obtain ⟨copies, t, copied, first, copiesFree⟩ := o.writes_copyLeaves
        ((s.leaves base.parts).filter fun e => o.keeps e.1) []
        (closed_free laid length) (fresh_free length)
        (fun e inside => isLeaf_of_mem_leaves laid e (List.mem_of_mem_filter inside))
        (fun _ inside => nomatch inside)
      have freshT := first.fresh (fresh_free length)
      obtain ⟨more, added, second, addedFree⟩ := writes_loadFields first.closed freshT appended
      have freshU := second.fresh freshT
      have third := writes_alloc (n := ⟨Rule.empty.facets, none, some []⟩) second.closed freshU
        fun _ inside => nomatch inside
      have leavesFree : ∀ e ∈ copies.putAll (fieldsAt t.length appended),
          free base e.2 := by
        intro e inside
        exact (Fields.mem_putAll inside).elim (copiesFree e) (addedFree e)
      have fourth := writes_attachAll (freshU _ (Nat.le_refl _)) _ third.closed
        (third.fresh freshU) leavesFree
      have writes := ((first.trans second).trans third).trans fourth
      have result := kidsAlike_of_writes laid length writes
      simp only [loaded, copied, added, alloc]
      exact result

end Overrides

end ShapeContract
