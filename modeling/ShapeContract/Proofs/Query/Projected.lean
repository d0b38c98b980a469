import ShapeContract.Proofs.Query.Building
import ShapeContract.Query.Projection

/-!
# What a projection shows

A field that is both kept and dropped is marked as dropped alone. So a projection keeps to the fields
that it names as long as one of them is not dropped as well; when all of them are, nothing is left that
says what to keep, and every field that is not dropped is shown.
-/

set_option autoImplicit false

namespace ShapeContract

/-! ## Rows -/

/-- A row that has of an item the fields that are shown, unchanged. -/
structure Shows (shown : String → Prop) (item row : Fields Value) : Prop where
  keys : ∀ name, name ∈ row.keys ↔ name ∈ item.keys ∧ shown name
  values : ∀ name ∈ row.keys, row.get? name = item.get? name
  own : item.keys.Nodup → row.keys.Nodup

/-- Which fields are shown matters, not how it is said. -/
theorem Shows.congr {shown told : String → Prop} {item row : Fields Value}
    (same : ∀ name, shown name ↔ told name) : Shows shown item row ↔ Shows told item row := by
  have equal : shown = told := funext fun name => propext (same name)
  rw [equal]

namespace Fields

variable {item : Fields Value} {names : List String}

/-- The fields of some names, in the order of the names. -/
def only (names : List String) (item : Fields Value) : Fields Value :=
  names.filterMap fun name => (item.get? name).map fun v => (name, v)

def without (names : List String) (item : Fields Value) : Fields Value :=
  item.filter fun e => !decide (e.1 ∈ names)

/-- What is kept has a name that is asked for, and its first value in the item. -/
theorem mem_only {e : String × Value} :
    e ∈ only names item ↔ e.1 ∈ names ∧ item.get? e.1 = some e.2 := by
  rw [only, List.mem_filterMap]
  constructor
  · rintro ⟨name, inside, found⟩
    obtain ⟨v, there, rfl⟩ := Option.map_eq_some_iff.1 found
    exact ⟨inside, there⟩
  · rintro ⟨inside, there⟩
    exact ⟨e.1, inside, by simp [there]⟩

/-- Kept fields come in the order in which they are asked for. -/
theorem keys_only_sublist (names : List String) (item : Fields Value) :
    (only names item).keys.Sublist names := by
  induction names with
  | nil => exact .slnil
  | cons name rest ih =>
    rw [only, List.filterMap_cons]
    cases item.get? name with
    | none => exact ih.cons name
    | some v => exact ih.cons_cons name

/-- Keeping fields shows them and nothing else. -/
theorem shows_only (own : names.Nodup) : Shows (· ∈ names) item (only names item) where
  keys name := by
    constructor
    · intro inside
      obtain ⟨e, among, rfl⟩ := List.mem_map.1 inside
      obtain ⟨asked, there⟩ := mem_only.1 among
      exact ⟨List.mem_map_of_mem (mem_of_get? there), asked⟩
    · rintro ⟨inside, asked⟩
      obtain ⟨v, there⟩ := exists_get?_of_mem_keys inside
      exact List.mem_map_of_mem (mem_only.2 ⟨asked, there⟩ : (name, v) ∈ only names item)
  values name inside := by
    have ownRow := own.sublist (keys_only_sublist names item)
    obtain ⟨e, among, rfl⟩ := List.mem_map.1 inside
    rw [(mem_only.1 among).2]
    exact (get?_eq_some_iff ownRow e.1 e.2).2 among
  own _ := own.sublist (keys_only_sublist names item)

/-- A field that is not dropped stays. -/
theorem get?_without {name : String} (free : name ∉ names) :
    (without names item).get? name = item.get? name := by
  induction item with
  | nil => rfl
  | cons e rest ih =>
    obtain ⟨key, v⟩ := e
    unfold without at ih ⊢
    rw [List.filter_cons]
    by_cases here : key = name
    · simp [here, free]
    · split <;> simp [here, ih]

/-- Dropping fields shows all others. -/
theorem shows_without : Shows (· ∉ names) item (without names item) where
  keys name := by simp [keys, without]
  values name inside := by
    obtain ⟨e, among, rfl⟩ := List.mem_map.1 inside
    exact get?_without (by simpa using (List.mem_filter.1 among).2)
  own own := own.sublist (List.filter_sublist.map Prod.fst)

/-- Under names that are all written to alike stands what is written. -/
theorem get?_putAll_marked (fs : Fields Value) (x : Value) (name : String) :
    (fs.putAll (names.map fun other => (other, x))).get? name =
      if name ∈ names then some x else fs.get? name := by
  induction names generalizing fs with
  | nil => simp [putAll]
  | cons other rest ih =>
    refine (ih (fs.put other x)).trans ?_
    by_cases here : name = other
    · simp [here]
    · rw [get?_put_of_ne fs x here]
      simp [here]

end Fields

namespace Projection

open Criteria (Named)

variable {part kept dropped : Value} {names keep drop : List String}

/-! ## Marks -/

/-- Names that are written with one mark. -/
def marked (mark : Int) (names : List String) : Fields Value := names.map fun name => (name, .int mark)

/-- The marks of two lists, those of the dropped names over those of the kept ones. -/
def marks (keep drop : List String) : Fields Value :=
  (Fields.ofList (marked 1 keep)).putAll (marked 0 drop)

theorem markAll_eq (mark : Int) (part : Value) (p : Projection) :
    markAll mark part p = (Criteria.partItems part).bind fun vs => vs.foldlM
      (fun (p : Projection) field =>
        if field.hashable then .ok (p.put field (.int mark)) else .error .typeMisuse) p := by
  rw [markAll, Criteria.partItems]
  cases part.truthy <;> rfl

/-- Marking the fields of a list writes the mark under each name. -/
theorem markAll_named (named : Named part names) (mark : Int) (fs : Fields Value) :
    markAll mark part (Entries.ofFields fs) =
      .ok (Entries.ofFields (fs.putAll (marked mark names))) := by
  rw [markAll_eq, Criteria.partItems_of_named named]
  change List.foldlM _ _ (names.map Value.str) = _
  clear named
  induction names generalizing fs with
  | nil => rfl
  | cons name rest ih =>
    have hashed : (Value.str name).hashable = true := rfl
    rw [List.map_cons, List.foldlM_cons, if_pos hashed, Entries.put_ofFields]
    exact ih (fs.put name (.int mark))

/-- The projection of two lists: ones first, then zeros over them. -/
theorem ofLists_named (keeps : Named kept keep) (drops : Named dropped drop) :
    ofLists kept dropped = .ok (Entries.ofFields (marks keep drop)) := by
  have first : markAll 1 kept [] = .ok (Entries.ofFields (Fields.ofList (marked 1 keep))) :=
    markAll_named keeps 1 []
  rw [ofLists, first]
  exact markAll_named drops 0 _

/-- A field that is dropped has a zero, whether it is kept or not. -/
theorem get?_marks (name : String) : (marks keep drop).get? name =
    if name ∈ drop then some (.int 0) else if name ∈ keep then some (.int 1) else none := by
  have first : (Fields.ofList (marked 1 keep)).get? name = if name ∈ keep then some (.int 1) else none :=
    Fields.get?_putAll_marked [] _ name
  rw [marks, ← first]
  exact Fields.get?_putAll_marked _ _ name

/-- Each field has one mark. -/
theorem nodup_keys_marks : (marks keep drop).keys.Nodup :=
  Fields.nodup_keys_putAll (@Fields.nodup_keys_putAll Value [] List.nodup_nil _) _

/-- Which fields have which mark. -/
theorem mem_marks_iff {name : String} {mark : Value} : (name, mark) ∈ marks keep drop ↔
    (name ∈ drop ∧ mark = .int 0) ∨ (name ∈ keep ∧ name ∉ drop ∧ mark = .int 1) := by
  rw [← Fields.get?_eq_some_iff nodup_keys_marks, get?_marks]
  by_cases gone : name ∈ drop <;> by_cases asked : name ∈ keep <;> simp [gone, asked, eq_comm]

/-- The names under marks of a kind. -/
def namesOf (test : Value → Bool) (ms : Fields Value) : List String :=
  Fields.keys (ms.filter fun e => test e.2)

theorem mem_namesOf_iff {test : Value → Bool} {ms : Fields Value} {name : String} :
    name ∈ namesOf test ms ↔ ∃ mark, (name, mark) ∈ ms ∧ test mark = true := by
  simp [namesOf, Fields.keys]

/-- A field counts as kept if it is not dropped too. -/
theorem mem_kept_iff {name : String} :
    name ∈ namesOf isKept (marks keep drop) ↔ name ∈ keep ∧ name ∉ drop := by
  have one : isKept (.int 1) = true ∧ isKept (.int 0) = false := by decide
  rw [mem_namesOf_iff]
  constructor
  · rintro ⟨mark, inside, test⟩
    rcases mem_marks_iff.1 inside with ⟨-, rfl⟩ | ⟨asked, free, -⟩
    · rw [one.2] at test
      cases test
    · exact ⟨asked, free⟩
  · rintro ⟨asked, free⟩
    exact ⟨_, mem_marks_iff.2 (.inr ⟨asked, free, rfl⟩), one.1⟩

/-- A field counts as dropped if it is in the list of dropped ones. -/
theorem mem_dropped_iff {name : String} :
    name ∈ namesOf isDropped (marks keep drop) ↔ name ∈ drop := by
  have zero : isDropped (.int 0) = true ∧ isDropped (.int 1) = false := by decide
  rw [mem_namesOf_iff]
  constructor
  · rintro ⟨mark, inside, test⟩
    rcases mem_marks_iff.1 inside with ⟨gone, -⟩ | ⟨-, -, rfl⟩
    · exact gone
    · rw [zero.2] at test
      cases test
  · intro gone
    exact ⟨_, mem_marks_iff.2 (.inl ⟨gone, rfl⟩), zero.1⟩

/-! ## Items under marks -/

/-- What becomes of an item: the kept fields if there are any, otherwise all but the dropped ones. -/
def row (ms item : Fields Value) : Fields Value :=
  if namesOf isKept ms = [] then item.without (namesOf isDropped ms)
  else item.only (namesOf isKept ms)

theorem filter_ofFields (test : Value → Bool) (ms : Fields Value) :
    (Entries.ofFields ms).filter (fun e => test e.2) =
      Entries.ofFields (ms.filter fun e => test e.2) := List.filter_map

theorem fst_ofFields (ms : Fields Value) :
    (Entries.ofFields ms).map Prod.fst = ms.keys.map Value.str := by
  simp [Entries.ofFields, Fields.keys]

/-- Dropping fields of a mapping does not fail. -/
theorem dropFields_object (names : List String) (item : Fields Value) :
    dropFields (names.map .str) (.object item) = .ok (Entries.ofFields (item.without names)) := by
  have rest : (Entries.ofFields item).filter (fun e => !e.1.among (names.map .str)) =
      Entries.ofFields (item.without names) := by
    rw [Entries.ofFields, List.filter_map, Fields.without]
    simp [Function.comp_def, Value.among_texts, Entries.ofFields]
  exact congrArg Except.ok rest

/-- Keeping fields of a mapping does not fail. -/
theorem keepFields_object (names : List String) (item : Fields Value) :
    keepFields (names.map .str) (.object item) = .ok (Entries.ofFields (item.only names)) := by
  have found : (names.map Value.str).filterMap
      (fun f => ((Entries.ofFields item).get? f).map fun v => (f, v)) =
      Entries.ofFields (item.only names) := by
    rw [List.filterMap_map, Fields.only]
    simp [Entries.ofFields, List.map_filterMap, Function.comp_def, ← Entries.get?_ofFields]
  exact congrArg Except.ok found

/-- A mapping under marks is a row of it. -/
theorem applyTo_object (ms item : Fields Value) :
    applyTo (Entries.ofFields ms) (.object item) = .ok (Entries.ofFields (row ms item)) := by
  simp only [applyTo, filter_ofFields, fst_ofFields]
  rw [dropFields_object, keepFields_object, row]
  have empty : (Entries.ofFields (ms.filter fun e => isKept e.2)).isEmpty = true ↔
      namesOf isKept ms = [] := by
    simp [Entries.ofFields, namesOf, Fields.keys]
  by_cases none : namesOf isKept ms = []
  · rw [if_pos (empty.2 none), if_pos none]
    rfl
  · rw [if_neg (mt empty.1 none), if_neg none]
    rfl

theorem mapM_objects {f : Value → Except Failure Entries} {g : Fields Value → Fields Value}
    (each : ∀ item, f (.object item) = .ok (Entries.ofFields (g item))) (items : List (Fields Value)) :
    (do let out ← (items.map Value.object).mapM f; pure (out.map Entries.toValue)) =
      Except.ok (items.map fun item => Value.object (g item)) := by
  have done : (items.map Value.object).mapM f =
      .ok (items.map fun item => Entries.ofFields (g item)) := by
    rw [mapM_ok_iff, List.forall₂_map_left_iff, List.forall₂_map_right_iff, List.forall₂_same]
    exact fun item _ => each item
  rw [done]
  refine congrArg Except.ok ?_
  simp [Entries.toValue_ofFields]

/-- Every item is worked on in its place. -/
theorem apply_objects (ms : Fields Value) (items : List (Fields Value)) :
    apply (.object ms) (.list (items.map .object)) =
      .ok (items.map fun item => .object (row ms item)) := by
  cases ms with
  | nil =>
    have whole (item : Fields Value) : item = row [] item := by
      simp [row, namesOf, Fields.keys, Fields.without]
    refine mapM_objects (f := Value.asEntries) (fun item => ?_) items
    rw [← whole]
    rfl
  | cons e rest => exact mapM_objects (applyTo_object (e :: rest)) items

/-! ## Asked for and shown -/

/-- The items under the projection that two lists make. -/
def through (kept dropped items : Value) : Except Failure (List Value) := do
  apply (← ofLists kept dropped).toValue items

/-- The fields that two lists ask for: the kept ones if any are listed, and no dropped one. -/
def Asked (keep drop : List String) (name : String) : Prop := (keep = [] ∨ name ∈ keep) ∧ name ∉ drop

/-- The fields that two lists let through: the kept ones if any of them is not dropped, and no
dropped one. -/
def Shown (keep drop : List String) (name : String) : Prop :=
  ((∀ other ∈ keep, other ∈ drop) ∨ name ∈ keep) ∧ name ∉ drop

/-- A row shows what the marks say. -/
theorem shows_row (item : Fields Value) : Shows (Shown keep drop) item (row (marks keep drop) item) := by
  have none : namesOf isKept (marks keep drop) = [] ↔ ∀ other ∈ keep, other ∈ drop := by
    simp [List.eq_nil_iff_forall_not_mem, mem_kept_iff]
  rw [row]
  by_cases all : ∀ other ∈ keep, other ∈ drop
  · rw [if_pos (none.2 all)]
    refine (Shows.congr fun name => ?_).1 Fields.shows_without
    rw [mem_dropped_iff, Shown]
    exact ⟨fun free => ⟨.inl all, free⟩, And.right⟩
  · have own : (namesOf isKept (marks keep drop)).Nodup :=
      nodup_keys_marks.sublist (List.filter_sublist.map Prod.fst)
    rw [if_neg (mt none.1 all)]
    refine (Shows.congr fun name => ?_).1 (Fields.shows_only own)
    rw [mem_kept_iff, Shown, or_iff_right all]

/-- What is let through is what is asked for, unless all kept fields are dropped and the item has
others. -/
theorem shows_asked_iff {item row : Fields Value} (shows : Shows (Shown keep drop) item row) :
    Shows (Asked keep drop) item row ↔
      keep = [] ∨ (∃ name ∈ keep, name ∉ drop) ∨ ∀ name ∈ item.keys, name ∈ drop := by
  constructor
  · intro asked
    by_contra other
    obtain ⟨some, all, name, inside, free⟩ : keep ≠ [] ∧ (∀ name ∈ keep, name ∈ drop) ∧
        ∃ name ∈ item.keys, name ∉ drop := by simpa using other
    have told : name ∈ row.keys := (shows.keys name).2 ⟨inside, .inl all, free⟩
    obtain ⟨-, empty | listed, -⟩ := (asked.keys name).1 told
    · exact some empty
    · exact free (all name listed)
  · rintro (rfl | ⟨name, listed, free⟩ | gone)
    · refine (Shows.congr fun name => ?_).1 shows
      simp [Asked, Shown]
    · have some : ¬ ∀ other ∈ keep, other ∈ drop := fun all => free (all name listed)
      have any : keep ≠ [] := List.ne_nil_of_mem listed
      refine (Shows.congr fun name => ?_).1 shows
      rw [Asked, Shown, or_iff_right some, or_iff_right any]
    · refine ⟨fun name => ?_, shows.values, shows.own⟩
      rw [shows.keys]
      constructor
      · rintro ⟨inside, -, free⟩
        exact absurd (gone name inside) free
      · rintro ⟨inside, -, free⟩
        exact absurd (gone name inside) free

/-- **A projection shows what is asked for unless every kept field is dropped.** The items become
mappings in their order, with unchanged values: of each the kept fields that are not dropped if there
are such, otherwise all that are not dropped. That is what the two lists ask for exactly if no field
is to be kept, some kept field is not dropped, or the item has dropped fields alone. -/
theorem through_named (keeps : Named kept keep) (drops : Named dropped drop)
    (items : List (Fields Value)) :
    ∃ row : Fields Value → Fields Value,
      through kept dropped (.list (items.map .object)) =
        .ok (items.map fun item => .object (row item)) ∧
      ∀ item, Shows (Shown keep drop) item (row item) ∧
        (Shows (Asked keep drop) item (row item) ↔
          keep = [] ∨ (∃ name ∈ keep, name ∉ drop) ∨ ∀ name ∈ item.keys, name ∈ drop) := by
  refine ⟨row (marks keep drop), ?_, fun item => ⟨shows_row item, shows_asked_iff (shows_row item)⟩⟩
  have run := apply_objects (marks keep drop) items
  rw [← Entries.toValue_ofFields] at run
  rw [through, ofLists_named keeps drops]
  exact run

/-- A user with a mail address and the hash of a password. -/
def user : Fields Value := [("name", .str "ada"), ("mail", .str "ada@example.org"), ("hash", .str "x1")]

theorem through_named_user :
    Named (.list [.str "mail", .str "name"]) ["mail", "name"] ∧ Named (.list [.str "mail"]) ["mail"] ∧
      ∃ row : Fields Value → Fields Value,
        through (.list [.str "mail", .str "name"]) (.list [.str "mail"])
          (.list ([user].map .object)) = .ok ([user].map fun item => .object (row item)) ∧
        ∀ item, Shows (Shown ["mail", "name"] ["mail"]) item (row item) ∧
          (Shows (Asked ["mail", "name"] ["mail"]) item (row item) ↔
            ["mail", "name"] = [] ∨ (∃ name ∈ ["mail", "name"], name ∉ ["mail"]) ∨
              ∀ name ∈ item.keys, name ∈ ["mail"]) :=
  ⟨.names rfl, .names rfl, through_named (.names rfl) (.names rfl) [user]⟩

/-- The mail address alone is asked for and dropped; the name and the hash are shown. -/
theorem not_through_named_mail :
    through (.list [.str "mail"]) (.list [.str "mail"]) (.list [.object user]) =
      .ok [.object [("name", .str "ada"), ("hash", .str "x1")]] ∧
    ¬ Shows (Asked ["mail"] ["mail"]) user [("name", .str "ada"), ("hash", .str "x1")] := by
  refine ⟨rfl, fun shows => ?_⟩
  have told := (shows.keys "hash").1 (by simp [Fields.keys])
  simp [Asked] at told

end Projection

end ShapeContract
