import ShapeContract.Proofs.Overrides.Layout
import ShapeContract.Proofs.Rule.Misses

/-!
# Walks through a store

A store is walked by names, from node to node. Trees that wait to be attached stand apart from the
target and from each other: no new node is reached in two ways. What attaching one of them does is
then told by the walks from the target: what is below its place is new, and everything else is as it
was. Copies of leaves lead back to nodes of the base tree, and a walk that passes one of these edges
ends in a write to the base tree.
-/

set_option autoImplicit false

namespace ShapeContract.NodeStore

/-- An object without children, as it is made on the way to a place. -/
def vacant : StoredNode := ⟨Rule.empty.facets, none, some []⟩

/-- The node at the end of a sequence of names. -/
def walk (s : NodeStore) : Nat → List String → Option Nat
  | i, [] => some i
  | i, name :: rest => (s.child? i name).bind fun c => walk s c rest

variable {s : NodeStore}

@[simp] theorem walk_nil (i : Nat) : s.walk i [] = some i := rfl

theorem walk_append (i : Nat) (p q : List String) :
    s.walk i (p ++ q) = (s.walk i p).bind fun k => s.walk k q := by
  induction p generalizing i with
  | nil => rfl
  | cons name rest ih =>
    simp only [List.cons_append, walk, Option.bind_assoc]
    exact congrArg _ (funext ih)

theorem walk_append_of_some {i k : Nat} {p : List String} (first : s.walk i p = some k)
    (q : List String) : s.walk i (p ++ q) = s.walk k q := by
  rw [walk_append, first]
  rfl

theorem walk_congr {t : NodeStore} (same : ∀ k name, t.child? k name = s.child? k name) (i : Nat)
    (q : List String) : t.walk i q = s.walk i q := by
  induction q generalizing i with
  | nil => rfl
  | cons name rest ih => simp only [walk, same, ih]

theorem child?_putChild {w : Nat} (inside : w < s.length) (x : String) (c k : Nat) (y : String) :
    (s.putChild w x c).child? k y = if k = w ∧ y = x then some c else s.child? k y := by
  unfold child? putChild
  rw [List.getElem?_modify]
  by_cases here : k = w
  · subst here
    rw [List.getElem?_eq_getElem inside]
    by_cases same : y = x
    · subst same
      simp
    · simp [same, Fields.get?_put_of_ne]
  · simp [here, Ne.symm here]

theorem child?_alloc (k : Nat) (y : String) : (s ++ [vacant]).child? k y = s.child? k y := by
  unfold child?
  by_cases inside : k < s.length
  · rw [List.getElem?_append_left inside]
  · rw [List.getElem?_append_right (Nat.le_of_not_lt inside), List.getElem?_eq_none
      (Nat.le_of_not_lt inside)]
    cases k - s.length <;> rfl

/-- A walk that does not pass an edge is the same after the edge is written. -/
theorem walk_putChild_of_avoids {w : Nat} (inside : w < s.length) (x : String) (c : Nat) {i : Nat}
    {q : List String} (avoids : ∀ before after, q = before ++ x :: after → s.walk i before ≠ some w) :
    (s.putChild w x c).walk i q = s.walk i q := by
  induction q generalizing i with
  | nil => rfl
  | cons y rest ih =>
    have other : ¬(i = w ∧ y = x) := by
      rintro ⟨rfl, rfl⟩
      exact avoids [] rest rfl rfl
    simp only [walk]
    rw [child?_putChild inside, if_neg other]
    cases found : s.child? i y with
    | none => rfl
    | some d =>
      refine ih fun before after split passes => avoids (y :: before) after (by rw [split]; rfl) ?_
      rw [walk, found]
      exact passes

/-! ## Trees that wait -/

/-- Trees wait to be attached to a target. Up to a bound stand the nodes of the base tree, to which
copies have lent edges lead back. -/
structure Separate (bound target : Nat) (lent : Nat → String → Prop) (waits : Nat → Prop)
    (s : NodeStore) : Prop where
  base : ∀ k x c, k ≤ bound → s.child? k x = some c → c ≤ bound
  inside : ∀ k x c, s.child? k x = some c → c < s.length
  apart : bound < target ∧ target < s.length ∧ ¬waits target
  new : ∀ r, waits r → bound < r ∧ r < s.length
  /-- No new node is reached in two ways. -/
  alone : ∀ r r', r = target ∨ waits r → r' = target ∨ waits r' → ∀ q q' k, bound < k →
    s.walk r q = some k → s.walk r' q' = some k → r = r' ∧ q = q'
  crosses : ∀ k x c, bound < k → s.child? k x = some c → c ≤ bound → lent k x
  lends : ∀ r, waits r → ∀ x, lent r x → ∃ c ≤ bound, s.child? r x = some c
  /-- Only the roots of waiting trees have lent edges. -/
  ends : ∀ r, waits r → ∀ q k x, s.walk r q = some k → lent k x → q = []
  known : ∀ k x, lent k x → bound < k ∧ k < s.length

/-- A node that can be reached from the target lends a name to the base tree. -/
def Lends (bound target : Nat) (s : NodeStore) (k : Nat) (q : List String) (x : String) : Prop :=
  s.walk target q = some k ∧ ∃ c ≤ bound, s.child? k x = some c

section Linking

variable {bound target : Nat} {lent : Nat → String → Prop} {waits : Nat → Prop}

/-- What is reached from two roots is reached from one. -/
theorem Separate.root_eq (sep : Separate bound target lent waits s) {r r' k : Nat}
    (root : r = target ∨ waits r) (root' : r' = target ∨ waits r') (new : bound < k)
    {q q' : List String} (reached : s.walk r q = some k) (reached' : s.walk r' q' = some k) :
    r = r' :=
  (sep.alone r r' root root' q q' k new reached reached').1

/-- Behind the last node nothing begins. -/
theorem walk_length {q : List String} {k : Nat} (reached : s.walk s.length q = some k) :
    q = [] ∧ k = s.length := by
  cases q with
  | nil => exact ⟨rfl, (Option.some.inj reached).symm⟩
  | cons x rest =>
    have childless : s.child? s.length x = none := by simp [child?]
    rw [walk, childless] at reached
    cases reached

/-- Nothing else leads there. -/
theorem Separate.eq_of_walk_length (sep : Separate bound target lent waits s) {i : Nat}
    {q : List String} (reached : s.walk i q = some s.length) : i = s.length ∧ q = [] := by
  rcases List.eq_nil_or_concat q with rfl | ⟨before, x, rfl⟩
  · exact ⟨Option.some.inj reached, rfl⟩
  · rw [List.concat_eq_append, walk_append] at reached
    obtain ⟨k, _, last⟩ := Option.bind_eq_some_iff.1 reached
    obtain ⟨c, child, same⟩ := Option.bind_eq_some_iff.1 last
    have bounded := sep.inside k x c child
    rw [Option.some.inj same] at bounded
    exact absurd bounded (Nat.lt_irrefl _)

/-- An object without children joins the trees that wait. -/
theorem Separate.alloc (sep : Separate bound target lent waits s) :
    Separate bound target lent (fun k => waits k ∨ k = s.length) (s ++ [vacant]) := by
  have walks (i : Nat) (q : List String) : (s ++ [vacant]).walk i q = s.walk i q :=
    walk_congr child?_alloc i q
  have longer : s.length < (s ++ [vacant]).length := by simp
  refine ⟨?_, ?_, ?_, ?_, ?_, ?_, ?_, ?_, ?_⟩
  · intro k x c old child
    rw [child?_alloc] at child
    exact sep.base k x c old child
  · intro k x c child
    rw [child?_alloc] at child
    exact Nat.lt_trans (sep.inside k x c child) longer
  · obtain ⟨above, below, apart⟩ := sep.apart
    refine ⟨above, Nat.lt_trans below longer, ?_⟩
    rintro (waiting | rfl)
    · exact apart waiting
    · exact Nat.lt_irrefl _ below
  · rintro r (waiting | rfl)
    · exact ⟨(sep.new r waiting).1, Nat.lt_trans (sep.new r waiting).2 longer⟩
    · exact ⟨Nat.lt_trans sep.apart.1 sep.apart.2.1, longer⟩
  · intro r r' root root' q q' k new reached reached'
    rw [walks] at reached reached'
    by_cases made : k = s.length
    · subst made
      obtain ⟨rfl, rfl⟩ := sep.eq_of_walk_length reached
      obtain ⟨rfl, rfl⟩ := sep.eq_of_walk_length reached'
      exact ⟨rfl, rfl⟩
    · have before {r : Nat} {q : List String} (root : r = target ∨ waits r ∨ r = s.length)
          (reached : s.walk r q = some k) : r = target ∨ waits r := by
        rcases root with isTarget | waiting | rfl
        · exact .inl isTarget
        · exact .inr waiting
        · exact absurd (walk_length reached).2 made
      exact sep.alone r r' (before root reached) (before root' reached') q q' k new reached reached'
  · intro k x c new child
    rw [child?_alloc] at child
    exact sep.crosses k x c new child
  · rintro r (waiting | rfl) x isLent
    · rw [child?_alloc]
      exact sep.lends r waiting x isLent
    · exact absurd (sep.known _ x isLent).2 (Nat.lt_irrefl _)
  · rintro r (waiting | rfl) q k x reached isLent
    · rw [walks] at reached
      exact sep.ends r waiting q k x reached isLent
    · rw [walks] at reached
      exact (walk_length reached).1
  · exact fun k x isLent => ⟨(sep.known k x isLent).1, Nat.lt_trans (sep.known k x isLent).2 longer⟩

/-! ### Attaching a tree that waits -/

variable {w c : Nat} {p : List String} {x : String}

/-- A waiting tree is the same after another one has been attached. -/
theorem Separate.walk_link_root (sep : Separate bound target lent waits s)
    (reached : s.walk target p = some w) (new : bound < w) (inside : w < s.length) {r : Nat}
    (waiting : waits r) (q : List String) : (s.putChild w x c).walk r q = s.walk r q :=
  walk_putChild_of_avoids inside x c fun _ _ _ passes =>
    sep.apart.2.2 (sep.root_eq (.inr waiting) (.inl rfl) new passes reached ▸ waiting)

/-- Beside its place everything is as it was. -/
theorem Separate.walk_link_beside (sep : Separate bound target lent waits s)
    (reached : s.walk target p = some w) (new : bound < w) (inside : w < s.length) {q : List String}
    (beside : ¬p ++ [x] <+: q) : (s.putChild w x c).walk target q = s.walk target q := by
  refine walk_putChild_of_avoids inside x c ?_
  rintro before after rfl passes
  obtain ⟨-, rfl⟩ := sep.alone target target (.inl rfl) (.inl rfl) before p w new passes reached
  exact beside ⟨after, by simp⟩

/-- At its place stands the tree that has been attached. -/
theorem Separate.walk_link_below (sep : Separate bound target lent waits s) (waiting : waits c)
    (reached : s.walk target p = some w) (new : bound < w) (inside : w < s.length) (q : List String) :
    (s.putChild w x c).walk target (p ++ x :: q) = s.walk c q := by
  have above : ¬p ++ [x] <+: p := fun longer =>
    absurd longer.length_le (by simp)
  have there := (sep.walk_link_beside reached new inside above (c := c)).trans reached
  rw [walk_append_of_some there, walk, child?_putChild inside, if_pos ⟨rfl, rfl⟩]
  exact sep.walk_link_root reached new inside waiting q

theorem below_or_beside (p : List String) (x : String) (q : List String) :
    (∃ rest, q = p ++ x :: rest) ∨ ¬p ++ [x] <+: q := by
  by_cases below : p ++ [x] <+: q
  · obtain ⟨rest, rfl⟩ := below
    exact .inl ⟨rest, by simp⟩
  · exact .inr below

/-- What is reached from the target is below the place, and so in the tree, or it was reached before. -/
theorem Separate.walk_link_cases (sep : Separate bound target lent waits s) (waiting : waits c)
    (reached : s.walk target p = some w) (new : bound < w) (inside : w < s.length)
    {q : List String} {k : Nat} (there : (s.putChild w x c).walk target q = some k) :
    (∃ rest, q = p ++ x :: rest ∧ s.walk c rest = some k) ∨
      (¬p ++ [x] <+: q ∧ s.walk target q = some k) := by
  rcases below_or_beside p x q with ⟨rest, rfl⟩ | beside
  · rw [sep.walk_link_below waiting reached new inside] at there
    exact .inl ⟨rest, rfl, there⟩
  · rw [sep.walk_link_beside reached new inside beside] at there
    exact .inr ⟨beside, there⟩

theorem Separate.link (sep : Separate bound target lent waits s) (waiting : waits c)
    (reached : s.walk target p = some w) (new : bound < w) (inside : w < s.length) :
    Separate bound target lent (fun k => waits k ∧ k ≠ c) (s.putChild w x c) := by
  have same : (s.putChild w x c).length = s.length := List.length_modify ..
  have newC := sep.new c waiting
  have other {r : Nat} (waits : waits r) : r ≠ w := by
    rintro rfl
    exact sep.apart.2.2 (sep.root_eq (.inr waits) (.inl rfl) new (walk_nil _) reached ▸ waits)
  have root (r : Nat) (waits : waits r) (q : List String) :=
    sep.walk_link_root reached new inside waits q (x := x) (c := c)
  have fromTarget {q : List String} {k : Nat} :=
    sep.walk_link_cases waiting reached new inside (x := x) (q := q) (k := k)
  refine ⟨?_, ?_, ?_, ?_, ?_, ?_, ?_, ?_, ?_⟩
  · intro k y d old child
    have notW : ¬(k = w ∧ y = x) := fun here => absurd (here.1 ▸ old) (Nat.not_le.2 new)
    rw [child?_putChild inside, if_neg notW] at child
    exact sep.base k y d old child
  · intro k y d child
    rw [child?_putChild inside] at child
    rw [same]
    split at child
    · exact Option.some.inj child ▸ newC.2
    · exact sep.inside k y d child
  · exact ⟨sep.apart.1, same ▸ sep.apart.2.1, fun waits => sep.apart.2.2 waits.1⟩
  · exact fun r waits => same ▸ sep.new r waits.1
  · -- The tree that has been attached belongs to the target now, and to no other root.
    have mixed {r : Nat} (waits : waits r ∧ r ≠ c) {q q' : List String} {k : Nat} (newK : bound < k)
        (there : (s.putChild w x c).walk target q = some k)
        (there' : (s.putChild w x c).walk r q' = some k) : False := by
      rw [root r waits.1] at there'
      rcases fromTarget there with ⟨rest, -, inTree⟩ | ⟨-, before⟩
      · exact waits.2 (sep.root_eq (.inr waits.1) (.inr waiting) newK there' inTree)
      · exact sep.apart.2.2 (sep.root_eq (.inr waits.1) (.inl rfl) newK there' before ▸ waits.1)
    rintro r r' (rfl | waits) (rfl | waits') q q' k newK there there'
    · refine ⟨rfl, ?_⟩
      rcases fromTarget there with ⟨rest, rfl, inTree⟩ | ⟨beside, before⟩ <;>
        rcases fromTarget there' with ⟨rest', rfl, inTree'⟩ | ⟨beside', before'⟩
      · rw [(sep.alone c c (.inr waiting) (.inr waiting) _ _ k newK inTree inTree').2]
      · have same := sep.root_eq (.inr waiting) (.inl rfl) newK inTree before'
        exact absurd (same ▸ waiting) sep.apart.2.2
      · have same := sep.root_eq (.inr waiting) (.inl rfl) newK inTree' before
        exact absurd (same ▸ waiting) sep.apart.2.2
      · exact (sep.alone _ _ (.inl rfl) (.inl rfl) _ _ k newK before before').2
    · exact (mixed waits' newK there there').elim
    · exact (mixed waits newK there' there).elim
    · rw [root _ waits.1] at there
      rw [root _ waits'.1] at there'
      exact sep.alone _ _ (.inr waits.1) (.inr waits'.1) q q' k newK there there'
  · intro k y d newK child old
    rw [child?_putChild inside] at child
    split at child
    · exact absurd (Option.some.inj child ▸ newC.1) (Nat.not_lt.2 old)
    · exact sep.crosses k y d newK child old
  · intro r waits y isLent
    rw [child?_putChild inside, if_neg fun here => other waits.1 here.1]
    exact sep.lends r waits.1 y isLent
  · intro r waits q k y there
    rw [root r waits.1] at there
    exact sep.ends r waits.1 q k y there
  · exact fun k y isLent => same ▸ sep.known k y isLent

/-- An edge that is lent stays lent until something is attached in its place or above. -/
theorem Separate.lends_link_iff (sep : Separate bound target lent waits s) (waiting : waits c)
    (reached : s.walk target p = some w) (new : bound < w) (inside : w < s.length) {k : Nat}
    {y : String} (isLent : lent k y) (other : k ≠ c) (q : List String) :
    Lends bound target (s.putChild w x c) k q y ↔
      Lends bound target s k q y ∧ ¬p ++ [x] <+: q ++ [y] := by
  have newK := (sep.known k y isLent).1
  have above {q : List String} (apart : ¬p ++ [x] <+: q ++ [y]) : ¬p ++ [x] <+: q :=
    fun below => apart (below.trans (List.prefix_append _ _))
  constructor
  · rintro ⟨there, d, old, child⟩
    rw [child?_putChild inside] at child
    split at child
    · exact absurd (Option.some.inj child ▸ (sep.new c waiting).1) (Nat.not_lt.2 old)
    next elsewhere =>
      rcases below_or_beside p x q with ⟨rest, rfl⟩ | beside
      · rw [sep.walk_link_below waiting reached new inside] at there
        obtain rfl := sep.ends c waiting rest k y there isLent
        exact absurd (Option.some.inj there).symm other
      · rw [sep.walk_link_beside reached new inside beside] at there
        refine ⟨⟨there, d, old, child⟩, fun below => ?_⟩
        rcases List.prefix_concat_iff.1 below with same | inner
        · obtain ⟨rfl, names⟩ := List.append_inj' same rfl
          obtain rfl := Option.some.inj (reached.symm.trans there)
          exact elsewhere ⟨rfl, (List.cons.inj names).1.symm⟩
        · exact beside inner
  · rintro ⟨⟨there, d, old, child⟩, apart⟩
    refine ⟨(sep.walk_link_beside reached new inside (above apart)).trans there, d, old, ?_⟩
    rw [child?_putChild inside, if_neg, child]
    rintro ⟨rfl, rfl⟩
    obtain ⟨-, rfl⟩ := sep.alone target target (.inl rfl) (.inl rfl) q p k newK there reached
    exact apart (List.prefix_refl _)

/-- The tree that has been attached lends what its root lends. -/
theorem Separate.lends_link_self (sep : Separate bound target lent waits s) (waiting : waits c)
    (reached : s.walk target p = some w) (new : bound < w) (inside : w < s.length) {y : String}
    {q : List String} :
    Lends bound target (s.putChild w x c) c q y ↔ q = p ++ [x] ∧ lent c y := by
  have other : c ≠ w := by
    rintro rfl
    exact sep.apart.2.2 (sep.root_eq (.inr waiting) (.inl rfl) new (walk_nil _) reached ▸ waiting)
  have place := sep.walk_link_below waiting reached new inside (x := x) []
  have child (y : String) : (s.putChild w x c).child? c y = s.child? c y := by
    rw [child?_putChild inside, if_neg fun here => other here.1]
  unfold Lends
  rw [child]
  constructor
  · rintro ⟨there, d, old, found⟩
    have sep' := sep.link waiting reached new inside (x := x)
    obtain ⟨-, same⟩ := sep'.alone target target (.inl rfl) (.inl rfl) _ _ c (sep.new c waiting).1
      there place
    exact ⟨same, sep.crosses c y d (sep.new c waiting).1 found old⟩
  · rintro ⟨rfl, isLent⟩
    exact ⟨place, sep.lends c waiting y isLent⟩

end Linking

end ShapeContract.NodeStore
