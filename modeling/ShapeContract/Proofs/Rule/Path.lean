import ShapeContract.Rule.Tree

/-!
# Dotted paths and sequences of names

Names without dots are the segments of the path that they make: `segments_dotted`. A rule is then
attached below a sequence of names, one step at a time, and rules that are attached below one first
name meet in one node.
-/

set_option autoImplicit false

namespace ShapeContract

/-- A name that can stand between the dots of a path. -/
def IsSegment (name : String) : Prop := name ≠ "" ∧ '.' ∉ name.toList

instance (name : String) : Decidable (IsSegment name) := inferInstanceAs (Decidable (_ ∧ _))

/-- The path that names make below another path. -/
def dotted (path : String) (names : List String) : String := names.foldl extendPath path

/-- A text without the separator is one piece. -/
theorem piecesAux_of_notMem {sep : Char} {name : List Char} (plain : sep ∉ name) :
    Text.piecesAux sep name = (name, []) := by
  induction name with
  | nil => rfl
  | cons c rest ih =>
    simp only [List.mem_cons, not_or] at plain
    simp [Text.piecesAux, ih plain.2, Ne.symm plain.1]

/-- A separator ends the piece before it and starts the pieces after. -/
theorem piecesAux_append (sep : Char) (p q : List Char) :
    Text.piecesAux sep (p ++ sep :: q) =
      ((Text.piecesAux sep p).1, (Text.piecesAux sep p).2 ++ Text.pieces sep q) := by
  induction p with
  | nil => simp [Text.piecesAux, Text.pieces]
  | cons c rest ih =>
    by_cases here : c = sep <;> simp [Text.piecesAux, ih, here]

/-- The segments of two paths with a dot between them are those of the one and the other. -/
theorem segments_append (path other : String) :
    segments (path ++ "." ++ other) = segments path ++ segments other := by
  have cut := piecesAux_append '.' path.toList other.toList
  simp [segments, Text.split, Text.pieces, cut]

/-- No piece holds the separator. -/
theorem notMem_piecesAux (sep : Char) (cs : List Char) :
    sep ∉ (Text.piecesAux sep cs).1 ∧ ∀ piece ∈ (Text.piecesAux sep cs).2, sep ∉ piece := by
  induction cs with
  | nil => simp [Text.piecesAux]
  | cons c rest ih =>
    obtain ⟨first, others⟩ := ih
    by_cases here : c = sep
    · simp only [Text.piecesAux, here, if_true]
      exact ⟨List.not_mem_nil, List.forall_mem_cons.2 ⟨first, others⟩⟩
    · simp only [Text.piecesAux, here, if_false]
      refine ⟨fun inside => ?_, others⟩
      exact (List.mem_cons.1 inside).elim (fun same => here same.symm) first

/-- Between the dots of a path there are no dots. -/
theorem isSegment_of_mem_segments {path name : String} (inside : name ∈ segments path)
    (some : name ≠ "") : IsSegment name := by
  obtain ⟨first, others⟩ := notMem_piecesAux '.' path.toList
  have all : ∀ piece ∈ Text.pieces '.' path.toList, '.' ∉ piece :=
    List.forall_mem_cons.2 ⟨first, others⟩
  obtain ⟨piece, among, rfl⟩ := List.mem_map.1 inside
  refine ⟨some, ?_⟩
  rw [String.toList_ofList]
  exact all piece among

/-- A field name is a path of one segment. -/
theorem segments_name {name : String} (s : IsSegment name) : segments name = [name] := by
  simp [segments, Text.split, Text.pieces, piecesAux_of_notMem s.2]

theorem extendPath_ne_empty (path : String) {name : String} (s : IsSegment name) :
    extendPath path name ≠ "" := by
  unfold extendPath
  split
  · exact s.1
  · intro empty
    have length := congrArg String.length empty
    simp at length

/-- Extending a path by a name adds it as the last segment. -/
theorem segments_extendPath {path name : String} (s : IsSegment name) (ne : path ≠ "") :
    segments (extendPath path name) = segments path ++ [name] := by
  rw [extendPath, if_neg ne, segments_append, segments_name s]

/-- Extending a path by several names adds them in order. -/
theorem segments_foldl (names : List String) (all : ∀ name ∈ names, IsSegment name) :
    ∀ path ≠ "", segments (dotted path names) = segments path ++ names := by
  induction names with
  | nil => intro path _; simp [dotted]
  | cons name rest ih =>
    intro path ne
    have s := all name (by simp)
    have tail := ih (fun other member => all other (by simp [member])) _ (extendPath_ne_empty path s)
    simpa [dotted, segments_extendPath s ne] using tail

/-- The segments of a path made of names are the names. -/
theorem segments_dotted {names : List String} (all : ∀ name ∈ names, IsSegment name)
    (some : names ≠ []) : segments (dotted "" names) = names := by
  obtain ⟨name, rest, rfl⟩ := List.exists_cons_of_ne_nil some
  have s := all name (by simp)
  have tail := segments_foldl rest (fun other member => all other (by simp [member])) name s.1
  simpa [dotted, extendPath, segments_name s] using tail

/-- Gluing is the library's intercalation. -/
theorem glue_eq_intercalate (sep : Char) (parts : List (List Char)) :
    Text.glue sep parts = [sep].intercalate parts := by
  induction parts using Text.glue.induct with
  | case1 => rfl
  | case2 p => simp [Text.glue]
  | case3 p rest some ih =>
    obtain ⟨q, more, rfl⟩ := List.exists_cons_of_ne_nil some
    rw [Text.glue, ih, List.intercalate_cons_cons]
    · simp
    · exact some

/-- The segments of a path, joined by dots, are the path. -/
theorem join_segments (path : String) : Text.join "." (segments path) = path := by
  have glued := Text.glue_pieces '.' path.toList
  rw [glue_eq_intercalate] at glued
  apply String.toList_injective
  rw [Text.join, String.toList_intercalate, segments, Text.split, List.map_map]
  simpa [Function.comp_def] using glued

/-- A path is determined by its segments. -/
theorem eq_of_segments {path other : String} (same : segments path = segments other) :
    path = other := by
  rw [← join_segments path, same, join_segments]

namespace Rule

/-- A rule attached below a sequence of names. -/
def attachBelow (root : Rule) (names : List String) (rule : Rule) : Rule :=
  match names with
  | [] => root
  | first :: rest => attachAt root first rest rule

/-- Rules attached one after the other. -/
def attachEach (root : Rule) (leaves : List (List String × Rule)) : Rule :=
  leaves.foldl (fun r e => r.attachBelow e.1 e.2) root

@[simp] theorem attachEach_nil (root : Rule) : root.attachEach [] = root := rfl

@[simp] theorem attachEach_append (root : Rule) (ls ms : List (List String × Rule)) :
    root.attachEach (ls ++ ms) = (root.attachEach ls).attachEach ms := List.foldl_append

/-- Attaching at a dotted path is attaching below the names it joins. -/
theorem attach_dotted (root rule : Rule) {names : List String}
    (all : ∀ name ∈ names, IsSegment name) (some : names ≠ []) :
    root.attach (dotted "" names) rule = root.attachBelow names rule := by
  rw [attach, segments_dotted all some]
  rfl

@[simp] theorem kids_putChild (root : Rule) (name : String) (c : Rule) :
    (root.putChild name c).kids = root.kids.put name c := rfl

@[simp] theorem child?_putChild (root : Rule) (name : String) (c : Rule) :
    (root.putChild name c).child? name = some c := by
  simp [child?]

@[simp] theorem putChild_putChild (root : Rule) (name : String) (c d : Rule) :
    (root.putChild name c).putChild name d = root.putChild name d := by
  simp [putChild, kids]

/-- Attaching below a name replaces the child of that name by the child with the rule attached, made
bare where it is missing. -/
theorem attachBelow_cons (root rule : Rule) (name : String) {names : List String}
    (some : names ≠ []) :
    root.attachBelow (name :: names) rule =
      root.putChild name (((root.child? name).getD empty).attachBelow names rule) := by
  obtain ⟨next, rest, rfl⟩ := List.exists_cons_of_ne_nil some
  rfl

/-- Rules attached below one name are attached to the node of that name, a new one if there is none. -/
theorem attachEach_under (name : String) (leaves : List (List String × Rule))
    (deep : ∀ e ∈ leaves, e.1 ≠ []) (some : leaves ≠ []) (root : Rule) :
    root.attachEach (leaves.map fun e => (name :: e.1, e.2)) =
      root.putChild name (((root.child? name).getD empty).attachEach leaves) := by
  induction leaves generalizing root with
  | nil => exact absurd rfl some
  | cons e rest ih =>
    have step := attachBelow_cons root e.2 name (deep e (by simp))
    have start : root.attachEach ((e :: rest).map fun e => (name :: e.1, e.2)) =
        (root.attachBelow (name :: e.1) e.2).attachEach (rest.map fun e => (name :: e.1, e.2)) := rfl
    rw [start, step]
    by_cases more : rest = []
    · subst more
      rfl
    · rw [ih (fun e member => deep e (by simp [member])) more, child?_putChild, putChild_putChild]
      rfl

end Rule

end ShapeContract
