import ShapeContract.Proofs.Overrides.Walks

/-!
# What attaching writes to the base tree

Attaching along a path writes to the base tree exactly if the walk passes a lent edge and goes on. So
trees that are attached one after the other leave the base tree alone exactly if no path passes an
edge that one of those before still lends: `NodeStore.attachAll_cases`.
-/

set_option autoImplicit false

namespace ShapeContract.NodeStore

variable {bound target rule : Nat} {lent : Nat → String → Prop} {waits : Nat → Prop} {s : NodeStore}

/-- A node of the base tree has an edge to a new node. -/
structure Written (bound : Nat) (s : NodeStore) : Prop where
  long : bound < s.length
  edge : ∃ k x c, k ≤ bound ∧ s.child? k x = some c ∧ bound < c

/-! ## Walks that pass a lent edge -/

theorem long_alloc {n : Nat} (long : n < s.length) : n < (s ++ [vacant]).length := by
  rw [List.length_append]
  exact Nat.lt_add_right _ long

theorem written_putChild {k c : Nat} (old : k ≤ bound) (long : bound < s.length) (x : String)
    (new : bound < c) : Written bound (s.putChild k x c) := by
  refine ⟨?_, k, x, c, old, ?_, new⟩
  · rwa [NodeStore.putChild, List.length_modify]
  · rw [child?_putChild (Nat.lt_of_le_of_lt old long), if_pos ⟨rfl, rfl⟩]

theorem Written.putChild (written : Written bound s) {c : Nat} (new : bound < c) (w : Nat)
    (x : String) : Written bound (s.putChild w x c) := by
  obtain ⟨long, k, y, d, old, child, above⟩ := written
  by_cases inside : w < s.length
  · have long' : bound < (s.putChild w x c).length := by
      rwa [NodeStore.putChild, List.length_modify]
    by_cases here : k = w ∧ y = x
    · exact ⟨long', k, y, c, old, by rw [child?_putChild inside, if_pos here], new⟩
    · exact ⟨long', k, y, d, old, by rw [child?_putChild inside, if_neg here, child], above⟩
  · have same : s.putChild w x c = s := List.modify_eq_self (Nat.le_of_not_lt inside)
    rw [same]
    exact ⟨long, k, y, d, old, child, above⟩

theorem Written.alloc (written : Written bound s) : Written bound (s ++ [vacant]) := by
  obtain ⟨long, k, x, c, old, child, new⟩ := written
  exact ⟨long_alloc long, k, x, c, old, (child?_alloc k x).trans child, new⟩

theorem Written.attachAt (new : bound < rule) (rest : List String) : ∀ {s : NodeStore},
    Written bound s → ∀ (w : Nat) (first : String), Written bound (s.attachAt w first rest rule) := by
  induction rest with
  | nil => exact fun written w first => written.putChild new w first
  | cons next rest ih =>
    intro s written w first
    rw [NodeStore.attachAt]
    split
    · exact ih written _ next
    · exact ih (written.alloc.putChild written.long w first) _ next

theorem Written.attach (written : Written bound s) (new : bound < rule) (root : Nat)
    (path : String) : Written bound (s.attach root path rule) := by
  unfold NodeStore.attach
  split
  · exact written
  · exact written.attachAt new _ root _

theorem Written.attachAll (root : Nat) (leaves : Fields Nat) : ∀ {s : NodeStore},
    Written bound s → (∀ e ∈ leaves, bound < e.2) →
      Written bound (leaves.foldl (fun s e => s.attach root e.1 e.2) s) := by
  induction leaves with
  | nil => exact fun written _ => written
  | cons e rest ih =>
    intro s written new
    exact ih (written.attach (new e List.mem_cons_self) root e.1)
      fun other later => new other (List.mem_cons_of_mem _ later)

/-- Attaching to a node of the base tree writes to it, or to a node below. -/
theorem written_of_base (new : bound < rule) (rest : List String) : ∀ {c : Nat} (next : String),
    c ≤ bound → bound < s.length →
      (∀ k x d, k ≤ bound → s.child? k x = some d → d ≤ bound) →
        Written bound (s.attachAt c next rest rule) := by
  induction rest with
  | nil => exact fun next old long _ => written_putChild old long next new
  | cons further rest ih =>
    intro c next old long closed
    rw [NodeStore.attachAt]
    split
    next d child => exact ih further (closed c next d old child) long closed
    next =>
      have written : Written bound ((s ++ [vacant]).putChild c next s.length) :=
        written_putChild old (long_alloc long) next long
      exact written.attachAt new rest _ further

/-- **A walk that passes a lent edge and goes on writes to the base tree.** -/
theorem Separate.written_attachAt (sep : Separate bound target lent waits s) (new : bound < rule)
    {k : Nat} {q more : List String} {x y : String} (newK : bound < k)
    (lends : Lends bound target s k q x) (rest : List String) :
    ∀ {p : List String} {w : Nat} {first : String}, s.walk target p = some w →
      p ++ first :: rest = q ++ x :: y :: more → p <+: q →
        Written bound (s.attachAt w first rest rule) := by
  obtain ⟨there, c, old, child⟩ := lends
  have long : bound < s.length := Nat.lt_trans sep.apart.1 sep.apart.2.1
  induction rest with
  | nil =>
    rintro p w first _ path ⟨tail, rfl⟩
    have lengths := congrArg List.length path
    simp at lengths
    omega
  | cons next rest ih =>
    rintro p w first reached path ⟨tail, rfl⟩
    rw [List.append_assoc] at path
    have names := List.append_cancel_left path
    rw [walk_append_of_some reached] at there
    cases tail with
    | nil =>
      obtain ⟨rfl, names⟩ := List.cons.inj names
      obtain rfl := Option.some.inj there
      rw [NodeStore.attachAt, child]
      exact written_of_base new rest next old long sep.base
    | cons z tail =>
      obtain ⟨rfl, names⟩ := List.cons.inj names
      obtain ⟨d, step, further⟩ := Option.bind_eq_some_iff.1 there
      rw [NodeStore.attachAt, step]
      have forward : s.walk target (p ++ [first]) = some d := by
        rw [walk_append_of_some reached, walk, step]
        rfl
      exact ih forward (by simpa using names) ⟨tail, by simp⟩

/-! ## Walks that pass none -/

/-- What attaching a waiting tree along a path does. -/
structure Attaches (bound target : Nat) (lent : Nat → String → Prop) (waits : Nat → Prop)
    (rule : Nat) (path : List String) (s t : NodeStore) : Prop where
  separate : Separate bound target lent (fun k => waits k ∧ k ≠ rule) t
  same : ∀ k ≤ bound, t[k]? = s[k]?
  lends : ∀ k q y, lent k y → (Lends bound target t k q y ↔
    (k = rule ∧ q = path) ∨ (k ≠ rule ∧ Lends bound target s k q y ∧ ¬path <+: q ++ [y]))

theorem getElem?_putChild_of_ne {k w : Nat} (other : w ≠ k) (x : String) (c : Nat) :
    (s.putChild w x c)[k]? = s[k]? := by
  rw [NodeStore.putChild, List.getElem?_modify]
  simp [other]

theorem Separate.attaches_link (sep : Separate bound target lent waits s) (waiting : waits rule)
    {p : List String} {w : Nat} (reached : s.walk target p = some w) (new : bound < w)
    (inside : w < s.length) (x : String) :
    Attaches bound target lent waits rule (p ++ [x]) s (s.putChild w x rule) where
  separate := sep.link waiting reached new inside
  same k old := getElem?_putChild_of_ne (Nat.ne_of_gt (Nat.lt_of_le_of_lt old new)) x rule
  lends k q y isLent := by
    by_cases here : k = rule
    · subst here
      rw [sep.lends_link_self waiting reached new inside]
      simp [isLent]
    · rw [sep.lends_link_iff waiting reached new inside isLent here]
      simp [here]

/-- An object that is made on the way changes nothing that is lent. -/
theorem Separate.attaches_vacant (sep : Separate bound target lent waits s)
    {p : List String} {w : Nat} (reached : s.walk target p = some w) (new : bound < w)
    (inside : w < s.length) {x : String} (missing : s.child? w x = none) :
    Separate bound target lent waits ((s ++ [vacant]).putChild w x s.length) ∧
      (∀ k ≤ bound, ((s ++ [vacant]).putChild w x s.length)[k]? = s[k]?) ∧
      ∀ k q y, lent k y →
        (Lends bound target ((s ++ [vacant]).putChild w x s.length) k q y ↔
          Lends bound target s k q y) := by
  have longer : w < (s ++ [vacant]).length := long_alloc inside
  have walks := walk_congr (s := s) (t := s ++ [vacant]) child?_alloc
  have reached' := (walks target p).trans reached
  have attaches := sep.alloc.attaches_link (.inr rfl) reached' new longer x
  have waiting : (fun k => (waits k ∨ k = s.length) ∧ k ≠ s.length) = waits := by
    funext k
    refine propext ⟨fun both => both.1.resolve_right both.2, fun waiting => ⟨.inl waiting, ?_⟩⟩
    exact Nat.ne_of_lt (sep.new k waiting).2
  refine ⟨waiting ▸ attaches.separate, fun k old => ?_, fun k q y isLent => ?_⟩
  · rw [attaches.same k old]
    exact List.getElem?_append_left (Nat.lt_trans (Nat.lt_of_le_of_lt old new) inside)
  · have before : Lends bound target (s ++ [vacant]) k q y ↔ Lends bound target s k q y := by
      unfold Lends
      simp only [walks, child?_alloc]
    have known : k ≠ s.length := Nat.ne_of_lt (sep.known k y isLent).2
    rw [attaches.lends k q y isLent, before]
    simp only [known, false_and, ne_eq, not_false_eq_true, true_and, false_or, and_iff_left_iff_imp]
    -- Nothing that can be reached is at the place, or below.
    rintro ⟨there, c, old, child⟩ below
    rcases List.prefix_concat_iff.1 below with same | ⟨rest, rfl⟩
    · obtain ⟨rfl, names⟩ := List.append_inj' same rfl
      obtain rfl := Option.some.inj (reached.symm.trans there)
      obtain ⟨rfl, -⟩ := List.cons.inj names
      rw [missing] at child
      cases child
    · rw [List.append_assoc, walk_append_of_some reached, List.singleton_append, walk, missing] at there
      cases there

/-- **A walk that passes no lent edge attaches the tree**, and the base tree is as it was. -/
theorem Separate.attaches (rest : List String) : ∀ {s : NodeStore} {p : List String} {w : Nat}
    (first : String), Separate bound target lent waits s → waits rule →
      s.walk target p = some w → bound < w → w < s.length →
        (∀ k q x y more, bound < k → Lends bound target s k q x →
          p ++ first :: rest ≠ q ++ x :: y :: more) →
          Attaches bound target lent waits rule (p ++ first :: rest) s
            (s.attachAt w first rest rule) := by
  induction rest with
  | nil =>
    exact fun first sep waiting reached new inside _ =>
      sep.attaches_link waiting reached new inside first
  | cons next rest ih =>
    intro s p w first sep waiting reached new inside clear
    have path : p ++ first :: next :: rest = (p ++ [first]) ++ next :: rest := by simp
    rw [path] at clear ⊢
    rw [NodeStore.attachAt]
    cases child : s.child? w first with
    | some c =>
      have forward : s.walk target (p ++ [first]) = some c := by
        rw [walk_append_of_some reached, walk, child]
        rfl
      have newC : bound < c := by
        by_contra old
        exact clear w p first next rest new ⟨reached, c, Nat.le_of_not_lt old, child⟩ path.symm
      exact ih next sep waiting forward newC (sep.inside w first c child) clear
    | none =>
      obtain ⟨sep', same, lends⟩ := sep.attaches_vacant reached new inside child
      have long := Nat.lt_trans new inside
      have length : ((s ++ [vacant]).putChild w first s.length).length = s.length + 1 := by
        rw [NodeStore.putChild, List.length_modify, List.length_append]
        rfl
      have walks := walk_congr (s := s) (t := s ++ [vacant]) child?_alloc
      have forward : ((s ++ [vacant]).putChild w first s.length).walk target (p ++ [first]) =
          some s.length :=
        sep.alloc.walk_link_below (.inr rfl) ((walks target p).trans reached) new (long_alloc inside) []
      have attaches := ih next sep' waiting forward long (length ▸ Nat.lt_succ_self _) (by
        intro k q x y more newK lends' split
        have isLent := sep'.crosses k x _ newK lends'.2.choose_spec.2 lends'.2.choose_spec.1
        exact clear k q x y more newK ((lends k q x isLent).1 lends') split)
      refine ⟨attaches.separate, fun k old => (attaches.same k old).trans (same k old), ?_⟩
      intro k q y isLent
      rw [← lends k q y isLent]
      exact attaches.lends k q y isLent

/-! ## One after the other -/

/-- An entry still lends a name: since then nothing has been attached in its place or above. -/
def Stands {α : Type} (done : Fields α) (e : String × α) (x : String) : Prop :=
  ∃ before after, done = before ++ e :: after ∧ ∀ m ∈ after, ¬segments m.1 <+: segments e.1 ++ [x]

/-- A path passes a name that is lent, and goes on. -/
def Passes {α : Type} (gives : α → String → Prop) (done : Fields α) (path : String) : Prop :=
  ∃ e x y more, Stands done e x ∧ gives e.2 x ∧ segments path = segments e.1 ++ x :: y :: more

/-- A path of an entry passes a name that one of the entries before still lends. -/
def Crosses {α : Type} (gives : α → String → Prop) (done entries : Fields α) : Prop :=
  ∃ before e after, entries = before ++ e :: after ∧ Passes gives (done ++ before) e.1

theorem stands_concat {α : Type} (done : Fields α) (e e' : String × α) (x : String) :
    Stands (done ++ [e]) e' x ↔
      e' = e ∨ Stands done e' x ∧ ¬segments e.1 <+: segments e'.1 ++ [x] := by
  constructor
  · rintro ⟨before, after, split, none⟩
    rcases List.eq_nil_or_concat after with rfl | ⟨after, last, rfl⟩
    · exact .inl (List.cons.inj (List.append_inj' split rfl).2).1.symm
    · rw [List.concat_eq_append] at none
      rw [List.concat_eq_append, ← List.cons_append, ← List.append_assoc] at split
      obtain ⟨rfl, same⟩ := List.append_inj' split rfl
      obtain rfl := (List.cons.inj same).1
      refine .inr ⟨⟨before, after, rfl, fun m inside => none m ?_⟩, none e ?_⟩
      · exact List.mem_append_left _ inside
      · exact List.mem_append_right _ (List.mem_singleton_self e)
  · rintro (rfl | ⟨⟨before, after, rfl, none⟩, last⟩)
    · exact ⟨done, [], rfl, fun _ inside => nomatch inside⟩
    · refine ⟨before, after ++ [e], by simp, fun m inside => ?_⟩
      rcases List.mem_append.1 inside with old | new
      · exact none m old
      · exact List.mem_singleton.1 new ▸ last

theorem crosses_cons {α : Type} (gives : α → String → Prop) (done rest : Fields α)
    (e : String × α) : Crosses gives done (e :: rest) ↔
      Passes gives done e.1 ∨ Crosses gives (done ++ [e]) rest := by
  constructor
  · rintro ⟨before, e', after, split, passes⟩
    cases before with
    | nil =>
      obtain ⟨rfl, -⟩ := List.cons.inj split
      exact .inl (List.append_nil done ▸ passes)
    | cons first before =>
      obtain ⟨rfl, rest⟩ := List.cons.inj split
      exact .inr ⟨before, e', after, rest, by simpa using passes⟩
  · rintro (passes | ⟨before, e', after, rfl, passes⟩)
    · exact ⟨[], e, rest, rfl, (List.append_nil done).symm ▸ passes⟩
    · exact ⟨e :: before, e', after, rfl, by simpa using passes⟩

/-- Some trees have been attached, the others wait. -/
structure Stage (bound target : Nat) (lent : Nat → String → Prop) (done rest : Fields Nat)
    (s : NodeStore) : Prop where
  separate : Separate bound target lent (fun k => ∃ e ∈ rest, e.2 = k) s
  lends : ∀ k q x, lent k x →
    (Lends bound target s k q x ↔ ∃ e, Stands done e x ∧ e.2 = k ∧ segments e.1 = q)

theorem Stage.attach {done rest : Fields Nat} {e : String × Nat}
    (stage : Stage bound target lent done (e :: rest) s) (own : ((e :: rest).map Prod.snd).Nodup)
    (clear : ¬Passes lent done e.1) :
    Stage bound target lent (done ++ [e]) rest (s.attach target e.1 e.2) ∧
      ∀ k ≤ bound, (s.attach target e.1 e.2)[k]? = s[k]? := by
  have sep := stage.separate
  have waiting : ∃ f ∈ e :: rest, f.2 = e.2 := ⟨e, List.mem_cons_self, rfl⟩
  obtain ⟨first, more, path⟩ := List.exists_cons_of_ne_nil (segments_ne_nil e.1)
  have attaches := Separate.attaches more first sep waiting (walk_nil target) sep.apart.1
    sep.apart.2.1 (by
      intro k q x y more' newK lends split
      obtain ⟨c, old, child⟩ := lends.2
      have isLent := sep.crosses k x c newK child old
      obtain ⟨e', stands, rfl, rfl⟩ := (stage.lends k q x isLent).1 lends
      exact clear ⟨e', x, y, more', stands, isLent, path.trans split⟩)
  rw [List.nil_append, ← path] at attaches
  have attached : s.attach target e.1 e.2 = s.attachAt target first more e.2 := by
    rw [NodeStore.attach, path]
  rw [attached]
  refine ⟨⟨?_, ?_⟩, attaches.same⟩
  · have others : (fun k => (∃ f ∈ e :: rest, f.2 = k) ∧ k ≠ e.2) = fun k => ∃ f ∈ rest, f.2 = k := by
      funext k
      refine propext ⟨?_, ?_⟩
      · rintro ⟨⟨f, inside, rfl⟩, other⟩
        rcases List.mem_cons.1 inside with rfl | later
        · exact absurd rfl other
        · exact ⟨f, later, rfl⟩
      · rintro ⟨f, inside, rfl⟩
        refine ⟨⟨f, List.mem_cons_of_mem _ inside, rfl⟩, fun same => ?_⟩
        exact (List.nodup_cons.1 own).1 (same ▸ List.mem_map_of_mem inside)
    exact others ▸ attaches.separate
  · intro k q x isLent
    have newK := (sep.known k x isLent).1
    have other : Lends bound target s k q x → k ≠ e.2 := by
      rintro ⟨there, -⟩ rfl
      exact sep.apart.2.2 (sep.root_eq (.inr waiting) (.inl rfl) newK (walk_nil _) there ▸ waiting)
    rw [attaches.lends k q x isLent]
    constructor
    · rintro (⟨rfl, rfl⟩ | ⟨-, lends, apart⟩)
      · exact ⟨e, (stands_concat done e e x).2 (.inl rfl), rfl, rfl⟩
      · obtain ⟨e', stands, rfl, rfl⟩ := (stage.lends k q x isLent).1 lends
        exact ⟨e', (stands_concat done e e' x).2 (.inr ⟨stands, apart⟩), rfl, rfl⟩
    · rintro ⟨e', stands, rfl, rfl⟩
      rcases (stands_concat done e e' x).1 stands with rfl | ⟨stands, below⟩
      · exact .inl ⟨rfl, rfl⟩
      · have lends := (stage.lends _ _ x isLent).2 ⟨e', stands, rfl, rfl⟩
        exact .inr ⟨other lends, lends, below⟩

theorem Stage.written {done rest : Fields Nat} {e : String × Nat}
    (stage : Stage bound target lent done (e :: rest) s) (passes : Passes lent done e.1) :
    Written bound (s.attach target e.1 e.2) := by
  have sep := stage.separate
  obtain ⟨e', x, y, more', stands, isLent, split⟩ := passes
  obtain ⟨first, more, path⟩ := List.exists_cons_of_ne_nil (segments_ne_nil e.1)
  have newK := (sep.known e'.2 x isLent).1
  have lends := (stage.lends e'.2 _ x isLent).2 ⟨e', stands, rfl, rfl⟩
  have attached : s.attach target e.1 e.2 = s.attachAt target first more e.2 := by
    rw [NodeStore.attach, path]
  rw [attached]
  exact sep.written_attachAt (sep.new e.2 ⟨e, List.mem_cons_self, rfl⟩).1 newK lends more
    (walk_nil target) (path.symm.trans split) List.nil_prefix

/-- **Trees that are attached one after the other** write to the base tree if a path passes a name
that is lent; otherwise the base tree is as it was. -/
theorem Stage.attachAll_cases (rest : Fields Nat) : ∀ {done : Fields Nat} {s : NodeStore},
    Stage bound target lent done rest s → (rest.map Prod.snd).Nodup →
      (Crosses lent done rest ∧ Written bound (rest.foldl (fun s e => s.attach target e.1 e.2) s)) ∨
      (¬Crosses lent done rest ∧
        ∀ k ≤ bound, (rest.foldl (fun s e => s.attach target e.1 e.2) s)[k]? = s[k]?) := by
  induction rest with
  | nil =>
    refine fun _ _ => .inr ⟨?_, fun _ _ => rfl⟩
    rintro ⟨before, e, after, split, -⟩
    exact absurd split.symm (by simp)
  | cons e rest ih =>
    intro done s stage own
    rw [crosses_cons, List.foldl_cons]
    by_cases passes : Passes lent done e.1
    · refine .inl ⟨.inl passes, (stage.written passes).attachAll target rest fun f inside => ?_⟩
      exact (stage.separate.new f.2 ⟨f, List.mem_cons_of_mem _ inside, rfl⟩).1
    · obtain ⟨stage', same⟩ := stage.attach own passes
      rcases ih stage' (List.nodup_cons.1 own).2 with ⟨crosses, written⟩ | ⟨clear, same'⟩
      · exact .inl ⟨.inr crosses, written⟩
      · exact .inr ⟨fun crosses => crosses.elim passes clear,
          fun k old => (same' k old).trans (same k old)⟩

end ShapeContract.NodeStore
