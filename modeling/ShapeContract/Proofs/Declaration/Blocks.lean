import ShapeContract.Proofs.Declaration.Declared
import ShapeContract.Proofs.Rule.Rebuild

/-!
# Nested blocks

What a definition declares is found through its nested blocks by the keys on the way. If keys are
segments, each once, and no block is empty, these sequences of keys are the declared paths, cut at
their dots, and no two of them are equal.
-/

set_option autoImplicit false

namespace ShapeContract

namespace Document

/-- A mapping without a type. -/
def isBlock : Value → Bool
  | .object fs => !Fields.contains fs "type"
  | _ => false

mutual

/-- What is declared under a key, with the further keys that lead to it. -/
def placedAt : Value → List (List String × Value)
  | .object fs => if Fields.contains fs "type" then [([], .object fs)] else placed fs
  | v => [([], v)]

/-- What a definition declares, with the keys that lead to it. -/
def placed : List (String × Value) → List (List String × Value)
  | [] => []
  | (key, v) :: rest => (placedAt v).map (fun e => (key :: e.1, e.2)) ++ placed rest

end

mutual

/-- Keys that can stand in a path, each once, and nested blocks that are not empty, at every depth: a
block declares something below each of its keys. -/
def Tidy : Value → Prop
  | .object fs => if Fields.contains fs "type" then TidyType fs else fs ≠ [] ∧ TidyFields fs
  | .list (e :: _) => Tidy e
  | _ => True

/-- The same of the type that a declaration names. -/
def TidyType : List (String × Value) → Prop
  | [] => True
  | (key, v) :: rest => if key = "type" then Tidy v else TidyType rest

def TidyFields : List (String × Value) → Prop
  | [] => True
  | (key, v) :: rest => IsSegment key ∧ key ∉ Fields.keys rest ∧ Tidy v ∧ TidyFields rest

end

variable {fs : List (String × Value)} {v : Value}

/-- A declaration that is no block stands at its own place … -/
theorem placedAt_of_leaf (leaf : isBlock v = false) : placedAt v = [([], v)] := by
  cases v with
  | object fs =>
    rw [isBlock, Bool.not_eq_false'] at leaf
    rw [placedAt, if_pos leaf]
  | _ => rfl

/-- … and a block stands for the declarations in it. -/
theorem placedAt_block (block : isBlock (.object fs) = true) : placedAt (.object fs) = placed fs := by
  rw [isBlock, Bool.not_eq_true'] at block
  rw [placedAt, if_neg (ne_true_of_eq_false block)]

/-- The same of declared paths: a declaration is added under its path … -/
theorem declarationsAt_of_leaf (leaf : isBlock v = false) (path : String) :
    declarationsAt path v = [(path, v)] := by
  cases v with
  | object fs =>
    rw [isBlock, Bool.not_eq_false'] at leaf
    rw [declarationsAt, if_pos leaf]
  | _ => rfl

/-- … and a block under its path and a dot. -/
theorem declarationsAt_block (block : isBlock (.object fs) = true) (path : String) :
    declarationsAt path (.object fs) = declarations (path ++ ".") fs := by
  rw [isBlock, Bool.not_eq_true'] at block
  rw [declarationsAt, if_neg (ne_true_of_eq_false block)]

/-- A tidy block is not empty and its fields are tidy. -/
theorem tidy_block (block : isBlock (.object fs) = true) :
    Tidy (.object fs) ↔ fs ≠ [] ∧ TidyFields fs := by
  rw [isBlock, Bool.not_eq_true'] at block
  rw [Tidy, if_neg (ne_true_of_eq_false block)]

/-- A declaration by its form: a nested block, or something that is declared itself. -/
theorem block_or_leaf (v : Value) :
    (∃ fs, v = .object fs ∧ isBlock (.object fs) = true) ∨ isBlock v = false := by
  cases block : isBlock v with
  | false => exact .inr rfl
  | true =>
    cases v with
    | object fs => exact .inl ⟨fs, rfl, block⟩
    | _ => cases block

/-- The first key that leads to a declaration is one of the definition. -/
theorem head?_placed (fs : List (String × Value)) :
    ∀ e ∈ placed fs, ∃ key ∈ Fields.keys fs, e.1.head? = some key := by
  induction fs with
  | nil => exact fun _ inside => nomatch inside
  | cons head rest ih =>
    obtain ⟨key, v⟩ := head
    intro e inside
    rw [placed, List.mem_append, List.mem_map] at inside
    rcases inside with ⟨tail, -, rfl⟩ | later
    · exact ⟨key, List.mem_cons_self, rfl⟩
    · obtain ⟨other, known, first⟩ := ih e later
      exact ⟨other, List.mem_cons_of_mem _ known, first⟩

/-- Every declaration of a definition has a field above it. -/
theorem placed_deep (fs : List (String × Value)) : ∀ e ∈ placed fs, e.1 ≠ [] := by
  intro e inside none
  obtain ⟨key, -, first⟩ := head?_placed fs e inside
  rw [none] at first
  cases first

mutual

/-- In a tidy definition each step of a place is a field name. -/
theorem placed_segments (fs : List (String × Value)) (tidy : TidyFields fs) :
    ∀ e ∈ placed fs, ∀ key ∈ e.1, IsSegment key := by
  match fs with
  | [] => exact fun _ inside => nomatch inside
  | (key, v) :: rest =>
    obtain ⟨segment, -, here, later⟩ := tidy
    intro e inside
    rw [placed, List.mem_append, List.mem_map] at inside
    rcases inside with ⟨tail, under, rfl⟩ | inside
    · exact List.forall_mem_cons.2 ⟨segment, placedAt_segments v here tail under⟩
    · exact placed_segments rest later e inside
termination_by sizeOf fs

theorem placedAt_segments (v : Value) (tidy : Tidy v) :
    ∀ e ∈ placedAt v, ∀ key ∈ e.1, IsSegment key := by
  rcases block_or_leaf v with ⟨fs, rfl, block⟩ | leaf
  · rw [placedAt_block block]
    exact placed_segments fs ((tidy_block block).1 tidy).2
  · rw [placedAt_of_leaf leaf]
    simp
termination_by sizeOf v

end

mutual

/-- And no two declarations share a place. -/
theorem placed_nodup (fs : List (String × Value)) (tidy : TidyFields fs) :
    ((placed fs).map Prod.fst).Nodup := by
  match fs with
  | [] => exact List.nodup_nil
  | (key, v) :: rest =>
    obtain ⟨-, new, here, later⟩ := tidy
    have inner := placedAt_nodup v here
    rw [placed, List.map_append, List.nodup_append]
    refine ⟨?_, placed_nodup rest later, ?_⟩
    · have prefixed : ((placedAt v).map fun e => (key :: e.1, e.2)).map Prod.fst =
          ((placedAt v).map Prod.fst).map (List.cons key) := by
        rw [List.map_map, List.map_map]
        rfl
      rw [prefixed]
      exact inner.map fun _ _ same => (List.cons.inj same).2
    · rintro keys first other second rfl
      rw [List.map_map, List.mem_map] at first
      obtain ⟨tail, -, rfl⟩ := first
      obtain ⟨e, inside, same⟩ := List.mem_map.1 second
      obtain ⟨known, among, head⟩ := head?_placed rest e inside
      rw [same] at head
      exact new (Option.some.inj head ▸ among)
termination_by sizeOf fs

theorem placedAt_nodup (v : Value) (tidy : Tidy v) : ((placedAt v).map Prod.fst).Nodup := by
  rcases block_or_leaf v with ⟨fs, rfl, block⟩ | leaf
  · rw [placedAt_block block]
    exact placed_nodup fs ((tidy_block block).1 tidy).2
  · rw [placedAt_of_leaf leaf]
    exact List.nodup_singleton _
termination_by sizeOf v

end

/-! ## Declared paths -/

/-- What stands before a key that is declared below a path. -/
def stem (path : String) : String := if path = "" then "" else path ++ "."

theorem stem_append (path key : String) : stem path ++ key = extendPath path key := by
  unfold stem extendPath
  split
  · exact String.empty_append
  · rfl

mutual

/-- **Declared paths are sequences of keys** with dots between them. -/
theorem declarations_eq (fs : List (String × Value)) (tidy : TidyFields fs) (path : String) :
    declarations (stem path) fs = (placed fs).map fun e => (dotted path e.1, e.2) := by
  match fs with
  | [] => rfl
  | (key, v) :: rest =>
    obtain ⟨segment, -, here, later⟩ := tidy
    rw [declarations, placed, stem_append, List.map_append, List.map_map,
      declarationsAt_eq v here (extendPath_ne_empty path segment), declarations_eq rest later path]
    rfl
termination_by sizeOf fs

/-- The declared paths of a tidy definition are its places, joined with dots. -/
theorem declarationsAt_eq (v : Value) (tidy : Tidy v) {path : String} (some : path ≠ "") :
    declarationsAt path v = (placedAt v).map fun e => (dotted path e.1, e.2) := by
  rcases block_or_leaf v with ⟨fs, rfl, block⟩ | leaf
  · have whole := declarations_eq fs ((tidy_block block).1 tidy).2 path
    rw [stem, if_neg some] at whole
    rw [declarationsAt_block block, placedAt_block block, whole]
  · rw [declarationsAt_of_leaf leaf, placedAt_of_leaf leaf]
    rfl
termination_by sizeOf v

end

/-- Where nothing fails each declaration has its descriptor. -/
theorem forall₂_described {ds : List (String × Value)} (none : failure? ds = none) :
    List.Forall₂ (fun e p => p.1 = e.1 ∧ descriptorOf e.2 = .ok p.2) ds (described ds) := by
  induction ds with
  | nil => exact .nil
  | cons e rest ih =>
    obtain ⟨path, v⟩ := e
    rw [failure?] at none
    rw [described]
    cases read : descriptorOf v with
    | error e =>
      rw [read] at none
      cases none
    | ok d =>
      rw [read] at none
      exact .cons ⟨rfl, read⟩ (ih none)

theorem ofDefinition_object (fs : List (String × Value)) :
    ofDefinition (.object fs) = declareFields [] "" fs := by
  cases fs <;> rfl

/-- **The paths of a document** that is declared without a failure. -/
theorem forall₂_paths (tidy : TidyFields fs) {paths : Fields Descriptor}
    (declared : declareFields [] "" fs = (paths, none)) :
    List.Forall₂ (fun e p => p.1 = dotted "" e.1 ∧ descriptorOf e.2 = .ok p.2) (placed fs) paths := by
  have cut : declarations "" fs = (placed fs).map fun e => (dotted "" e.1, e.2) :=
    declarations_eq fs tidy ""
  rw [declareFields_eq, declareAll, Prod.mk.injEq, cut] at declared
  obtain ⟨same, none⟩ := declared
  have described := List.forall₂_map_left_iff.1 (forall₂_described none)
  have keys : (Document.described ((placed fs).map fun e => (dotted "" e.1, e.2))).keys =
      ((placed fs).map Prod.fst).map (dotted "") := by
    rw [List.map_map, Fields.keys, ← List.forall₂_eq_eq_eq, List.forall₂_map_left_iff,
      List.forall₂_map_right_iff]
    exact described.flip.imp fun p e both => both.1
  have own : ((placed fs).map Prod.fst).map (dotted "") |>.Nodup := by
    refine List.Nodup.map_on ?_ (placed_nodup fs tidy)
    intro names first others second same
    obtain ⟨e, inE, rfl⟩ := List.mem_map.1 first
    obtain ⟨g, inG, rfl⟩ := List.mem_map.1 second
    rw [← segments_dotted (placed_segments fs tidy e inE) (placed_deep fs e inE), same,
      segments_dotted (placed_segments fs tidy g inG) (placed_deep fs g inG)]
  -- No path is declared twice, so none takes the place of another.
  rw [← keys] at own
  rw [show Fields.putAll [] _ = _ from Fields.ofList_of_nodup _ own] at same
  rw [← same]
  exact described

/-- Declarations that all have descriptors. -/
def Read (ds : List (List String × Value)) : Prop := ∀ e ∈ ds, ∃ d, descriptorOf e.2 = .ok d

/-- Every declaration of such a document has a descriptor. -/
theorem read_placed (tidy : TidyFields fs) {paths : Fields Descriptor}
    (declared : declareFields [] "" fs = (paths, none)) : Read (placed fs) := by
  have each := (forall₂_paths tidy declared).imp fun e p both =>
    (⟨⟨p.2, both.2⟩, both.1⟩ : (∃ d, descriptorOf e.2 = .ok d) ∧ p.1 = dotted "" e.1)
  exact ((List.forall₂_and_left _ _).1 each).1

/-- A definition reads when its first field does and the rest does. -/
theorem read_placed_cons (key : String) (v : Value) (rest : List (String × Value)) :
    Read (placed ((key, v) :: rest)) ↔ Read (placedAt v) ∧ Read (placed rest) := by
  unfold Read
  rw [placed, List.forall_mem_append, List.forall_mem_map]

/-- A declaration that reads has a descriptor. -/
theorem Read.of_leaf (read : Read (placedAt v)) (leaf : isBlock v = false) :
    ∃ d, descriptorOf v = .ok d := by
  rw [placedAt_of_leaf leaf] at read
  exact read _ List.mem_cons_self

end Document

end ShapeContract
