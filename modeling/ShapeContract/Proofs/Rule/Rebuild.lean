import Mathlib.Data.List.Nodup
import ShapeContract.Proofs.Rule.Path

/-!
# Rebuilding a tree from its leaves

Flattening keeps the leaves of a tree and their paths; attaching them below a new root makes the
nodes between again, as bare objects. `Rule.rebuilt` says what comes out, and
`Rule.attachEach_leaves` proves it, by induction on the tree with the children of a node in step.
-/

set_option autoImplicit false

namespace ShapeContract

namespace Rule

mutual

/-- Child names are segments, each used once, at every depth. -/
def WellNamed : Rule → Prop
  | ⟨_, _, none⟩ => True
  | ⟨_, _, some cs⟩ => FieldsWellNamed cs

def FieldsWellNamed : List (String × Rule) → Prop
  | [] => True
  | (name, c) :: rest =>
    IsSegment name ∧ name ∉ Fields.keys rest ∧ WellNamed c ∧ FieldsWellNamed rest

end

theorem fieldsWellNamed_kids {r : Rule} (named : r.WellNamed) : FieldsWellNamed r.kids := by
  obtain ⟨f, items, children⟩ := r
  cases children with
  | none => trivial
  | some cs => exact named

theorem keys_nodup_of_fieldsWellNamed {cs : Fields Rule} (named : FieldsWellNamed cs) :
    cs.keys.Nodup := by
  induction cs with
  | nil => exact List.nodup_nil
  | cons e rest ih => exact List.nodup_cons.2 ⟨named.2.1, ih named.2.2.2⟩

mutual

/-- The leaves of some children with the names that lead to them. -/
def leavesOf : List (String × Rule) → List (List String × Rule)
  | [] => []
  | (name, c) :: rest => (leavesUnder c).map (fun e => (name :: e.1, e.2)) ++ leavesOf rest

/-- A leaf as itself; of another node the leaves below it. -/
def leavesUnder : Rule → List (List String × Rule)
  | ⟨f, items, none⟩ => [([], ⟨f, items, none⟩)]
  | ⟨f, items, some cs⟩ =>
    if f.type = .object ∧ cs ≠ [] then leavesOf cs else [([], ⟨f, items, some cs⟩)]

end

mutual

/-- What becomes of a node when it is made again from the leaves below it. -/
def rebuilt : Rule → Rule
  | ⟨f, items, none⟩ => ⟨f, items, none⟩
  | ⟨f, items, some cs⟩ =>
    if f.type = .object ∧ cs ≠ [] then ⟨empty.facets, none, some (rebuiltFields cs)⟩
    else ⟨f, items, some cs⟩

def rebuiltFields : List (String × Rule) → List (String × Rule)
  | [] => []
  | (name, c) :: rest => (name, rebuilt c) :: rebuiltFields rest

end

mutual

/-- Flattening lists the leaves below the fields, each under its dotted path. -/
theorem flattenFields_eq (path : String) : ∀ cs : List (String × Rule),
    flattenFields path cs = (leavesOf cs).map fun e => (dotted path e.1, e.2)
  | [] => rfl
  | (name, c) :: rest => by
    simp only [flattenFields, leavesOf, List.map_append, List.map_map]
    rw [leaf_eq (extendPath path name) c, flattenFields_eq path rest]
    rfl

/-- The same below a single rule. -/
theorem leaf_eq (path : String) : ∀ c : Rule,
    leaf path c = (leavesUnder c).map fun e => (dotted path e.1, e.2)
  | ⟨f, items, none⟩ => rfl
  | ⟨f, items, some cs⟩ => by
    unfold leaf leavesUnder
    split
    · exact flattenFields_eq path cs
    · rfl

end

theorem flattenFrom_eq (r : Rule) :
    r.flattenFrom "" = (leavesOf r.kids).map fun e => (dotted "" e.1, e.2) := by
  obtain ⟨f, items, children⟩ := r
  cases children with
  | none => rfl
  | some cs => exact flattenFields_eq "" cs

/-- The first name that leads to a leaf is the name of a child. -/
theorem head?_leavesOf (cs : List (String × Rule)) :
    ∀ e ∈ leavesOf cs, ∃ name ∈ Fields.keys cs, e.1.head? = some name := by
  induction cs with
  | nil => intro e member; cases member
  | cons head rest ih =>
    obtain ⟨name, c⟩ := head
    intro e member
    rw [leavesOf, List.mem_append, List.mem_map] at member
    rcases member with ⟨tail, _, rfl⟩ | later
    · exact ⟨name, List.mem_cons_self, rfl⟩
    · obtain ⟨other, known, first⟩ := ih e later
      exact ⟨other, List.mem_cons_of_mem _ known, first⟩

mutual

/-- The leaves of a well named rule are well named … -/
theorem wellNamed_leavesOf : ∀ cs : List (String × Rule), FieldsWellNamed cs →
    ∀ e ∈ leavesOf cs, e.2.WellNamed
  | [], _ => fun e inside => nomatch inside
  | (name, c) :: rest, named => by
    intro e inside
    rw [leavesOf, List.mem_append, List.mem_map] at inside
    rcases inside with ⟨tail, under, rfl⟩ | later
    · exact wellNamed_leavesUnder c named.2.2.1 tail under
    · exact wellNamed_leavesOf rest named.2.2.2 e later

theorem wellNamed_leavesUnder : ∀ c : Rule, c.WellNamed → ∀ e ∈ leavesUnder c, e.2.WellNamed
  | ⟨f, items, none⟩, named => by simpa [leavesUnder] using named
  | ⟨f, items, some cs⟩, named => by
    unfold leavesUnder
    split
    · exact wellNamed_leavesOf cs named
    · exact List.forall_mem_singleton.2 named

end

/-- … and each has a field above it. -/
theorem leavesOf_deep (cs : List (String × Rule)) : ∀ e ∈ leavesOf cs, e.1 ≠ [] := by
  intro e member none
  obtain ⟨name, -, first⟩ := head?_leavesOf cs e member
  rw [none] at first
  cases first

mutual

/-- Each step of a leaf's place is a field name, so its path can be read back. -/
theorem leavesOf_segments : ∀ cs : List (String × Rule), FieldsWellNamed cs →
    ∀ e ∈ leavesOf cs, ∀ name ∈ e.1, IsSegment name
  | [], _ => fun e member => nomatch member
  | (name, c) :: rest, named => by
    intro e member
    rw [leavesOf, List.mem_append, List.mem_map] at member
    rcases member with ⟨tail, inside, rfl⟩ | later
    · intro other among
      rcases List.mem_cons.1 among with rfl | among
      · exact named.1
      · exact leavesUnder_segments c named.2.2.1 tail inside other among
    · exact leavesOf_segments rest named.2.2.2 e later

theorem leavesUnder_segments : ∀ c : Rule, c.WellNamed →
    ∀ e ∈ leavesUnder c, ∀ name ∈ e.1, IsSegment name
  | ⟨f, items, none⟩, _ => by simp [leavesUnder]
  | ⟨f, items, some cs⟩, named => by
    unfold leavesUnder
    split
    · exact leavesOf_segments cs named
    · simp

end

mutual

/-- No two leaves share a place. -/
theorem leavesOf_nodup : ∀ cs : List (String × Rule), FieldsWellNamed cs →
    ((leavesOf cs).map Prod.fst).Nodup
  | [], _ => List.nodup_nil
  | (name, c) :: rest, named => by
    have inner := leavesUnder_nodup c named.2.2.1
    have outer := leavesOf_nodup rest named.2.2.2
    rw [leavesOf, List.map_append, List.nodup_append]
    refine ⟨?_, outer, ?_⟩
    · have prefixed : ((leavesUnder c).map fun e => (name :: e.1, e.2)).map Prod.fst =
          ((leavesUnder c).map Prod.fst).map (List.cons name) := by
        simp only [List.map_map]
        rfl
      rw [prefixed]
      exact inner.map fun _ _ same => (List.cons.inj same).2
    · rintro names first other second rfl
      simp only [List.map_map, List.mem_map] at first second
      obtain ⟨tail, _, rfl⟩ := first
      obtain ⟨e, later, same⟩ := second
      obtain ⟨known, among, head⟩ := head?_leavesOf rest e later
      rw [same] at head
      exact named.2.1 (Option.some.inj head ▸ among)

theorem leavesUnder_nodup : ∀ c : Rule, c.WellNamed → ((leavesUnder c).map Prod.fst).Nodup
  | ⟨f, items, none⟩, _ => by simp [leavesUnder]
  | ⟨f, items, some cs⟩, named => by
    unfold leavesUnder
    split
    · exact leavesOf_nodup cs named
    · simp

end

/-- Flattening lists every leaf once: no two leaves have one path. -/
theorem flatten_eq {r : Rule} (named : r.WellNamed) :
    r.flatten "" = (leavesOf r.kids).map fun e => (dotted "" e.1, e.2) := by
  have kids := fieldsWellNamed_kids named
  rw [flatten, flattenFrom_eq]
  refine Fields.ofList_of_nodup _ ?_
  have paths : Fields.keys ((leavesOf r.kids).map fun e => (dotted "" e.1, e.2)) =
      ((leavesOf r.kids).map Prod.fst).map (dotted "") := by
    simp only [Fields.keys, List.map_map]
    rfl
  rw [paths]
  refine List.Nodup.map_on ?_ (leavesOf_nodup _ kids)
  intro names first others second same
  simp only [List.mem_map] at first second
  obtain ⟨e, inE, rfl⟩ := first
  obtain ⟨g, inG, rfl⟩ := second
  rw [← segments_dotted (leavesOf_segments _ kids e inE) (leavesOf_deep _ e inE), same,
    segments_dotted (leavesOf_segments _ kids g inG) (leavesOf_deep _ g inG)]

mutual

/-- Fields have leaves, since a bare object counts as one. -/
theorem leavesOf_ne_nil : ∀ cs : List (String × Rule), cs ≠ [] → leavesOf cs ≠ []
  | [], more => absurd rfl more
  | (name, c) :: rest, _ => by
    simp [leavesOf, leavesUnder_ne_nil c]

theorem leavesUnder_ne_nil : ∀ c : Rule, leavesUnder c ≠ []
  | ⟨f, items, none⟩ => by simp [leavesUnder]
  | ⟨f, items, some cs⟩ => by
    unfold leavesUnder
    split
    next interior => exact leavesOf_ne_nil cs interior.2
    next => exact List.cons_ne_nil _ _

end

mutual

/-- **Leaves of new children bring the children back**, rebuilt and in their order. -/
theorem attachEach_leavesOf (f : Facets) (items : Option Rule) : ∀ (cs known : Fields Rule),
    FieldsWellNamed cs → (∀ name ∈ Fields.keys cs, name ∉ known.keys) →
    attachEach ⟨f, items, some known⟩ (leavesOf cs) =
      ⟨f, items, some (known ++ rebuiltFields cs)⟩
  | [], known, _, _ => by simp [leavesOf, rebuiltFields]
  | (name, c) :: rest, known, named, fresh => by
    have new : name ∉ known.keys := fresh name List.mem_cons_self
    have first := attachEach_leavesUnder f items name c known named.2.2.1 new
    have others : ∀ other ∈ Fields.keys rest,
        other ∉ Fields.keys (known ++ [(name, rebuilt c)]) := by
      intro other among
      have old := fresh other (List.mem_cons_of_mem _ among)
      have different : other ≠ name := fun same => named.2.1 (same ▸ among)
      simpa [Fields.keys, different] using old
    rw [leavesOf, attachEach_append, first, attachEach_leavesOf f items rest _ named.2.2.2 others,
      rebuiltFields, List.append_assoc]
    rfl

/-- Attaching the leaves under a new name, one after another, adds the rebuilt child at the end. -/
theorem attachEach_leavesUnder (f : Facets) (items : Option Rule) (name : String) :
    ∀ (c : Rule) (known : Fields Rule), c.WellNamed → name ∉ known.keys →
    attachEach ⟨f, items, some known⟩ ((leavesUnder c).map fun e => (name :: e.1, e.2)) =
      ⟨f, items, some (known ++ [(name, rebuilt c)])⟩
  | ⟨g, inner, none⟩, known, _, new => by
    simp [leavesUnder, attachEach, attachBelow, attachAt, putChild, kids, rebuilt,
      Fields.put_of_notMem known _ new]
  | ⟨g, inner, some cs⟩, known, named, new => by
    unfold leavesUnder rebuilt
    split
    next interior =>
      have absent : child? ⟨f, items, some known⟩ name = none := Fields.get?_of_notMem known new
      have inside := attachEach_leavesOf empty.facets none cs [] named (by simp [Fields.keys])
      rw [attachEach_under name _ (leavesOf_deep cs) (leavesOf_ne_nil cs interior.2), absent]
      simp only [Option.getD_none]
      rw [show empty = ⟨empty.facets, none, some []⟩ from rfl, inside]
      simp [putChild, kids, Fields.put_of_notMem known _ new]
    next =>
      simp [attachEach, attachBelow, attachAt, putChild, kids, Fields.put_of_notMem known _ new]

end

end Rule

end ShapeContract
