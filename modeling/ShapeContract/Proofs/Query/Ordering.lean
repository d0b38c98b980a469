import Mathlib.Order.WithBot
import ShapeContract.Proofs.Query.Sought
import ShapeContract.Proofs.Sorting
import ShapeContract.Proofs.Value.Ranked
import ShapeContract.Query.SortOrder

/-!
# Sorting by several fields

The order of items field by field, stated without the comparison that the sort uses. Where each
field has numbers only or texts only this order is one of ranks, and so is that of rows, which are
items with their places: of two items that tie in all fields the earlier one is ahead. So there is
just one way to put the rows in order, and sorting finds it: `SortOrder.apply_ordered`.
-/

set_option autoImplicit false

namespace ShapeContract

namespace SortOrder

open Criterion (given)

/-! ## The order of items -/

/-- The ascending order of what a field is given: nothing comes after all values. -/
inductive Sooner : Option Value → Option Value → Prop
  | less {v w : Value} (less : v.Less w) : Sooner (some v) (some w)
  | given (v : Value) : Sooner (some v) none

inductive Alike : Option Value → Option Value → Prop
  | same {v w : Value} (same : v.Same w) : Alike (some v) (some w)
  | missing : Alike none none

/-- Two given values come as they compare. -/
@[simp] theorem sooner_some {v w : Value} : Sooner (some v) (some w) ↔ v.Less w :=
  ⟨fun | .less less => less, .less⟩

@[simp] theorem alike_some {v w : Value} : Alike (some v) (some w) ↔ v.Same w :=
  ⟨fun | .same same => same, .same⟩

/-- Whether one of two things that a field is given is to stand before the other. -/
def Leads (ascending : Bool) (x y : Option Value) : Prop :=
  if ascending then Sooner x y else Sooner y x

/-- What a sort field is given in an item. -/
def givenIn (item : Value) (name : String) : Option Value := given (item.field? name)

/-- The first field in which two items are not alike decides which one precedes. -/
def Precedes : Fields Bool → Value → Value → Prop
  | [], _, _ => False
  | (name, ascending) :: rest, a, b =>
    Leads ascending (givenIn a name) (givenIn b name) ∨
      (Alike (givenIn a name) (givenIn b name) ∧ Precedes rest a b)

/-- Items that are alike in all fields. -/
def Ties : Fields Bool → Value → Value → Prop
  | [], _, _ => True
  | (name, _) :: rest, a, b => Alike (givenIn a name) (givenIn b name) ∧ Ties rest a b

/-- Of items with their places, one is ahead if it precedes or ties and came earlier. -/
def Ahead (order : Fields Bool) (a b : Value × Nat) : Prop :=
  Precedes order a.1 b.1 ∨ (Ties order a.1 b.1 ∧ a.2 < b.2)

/-- A sort order as it is given: one for ascending fields, minus one for descending ones. -/
def document (order : Fields Bool) : Value :=
  .object (order.mapValues fun ascending => .int (if ascending then 1 else -1))

/-- In each field the values that are given are all numbers or all texts. -/
def Sortable (order : Fields Bool) (items : List Value) : Prop :=
  ∀ name ∈ order.keys,
    (∀ item ∈ items, ∀ v, givenIn item name = some v → v.IsNumber) ∨
      ∀ item ∈ items, ∀ v, givenIn item name = some v → v.isText = true

/-! ## Ranks of items -/

/-- A missing value ranks after all given ones. -/
theorem ranked_given {kind : Value → Prop} (ranked : Ranked kind Value.Less Value.Same) :
    Ranked (fun x => ∀ v, x = some v → kind v) Sooner Alike := by
  obtain ⟨β, _, rank, told⟩ := ranked
  refine ⟨WithTop β, inferInstance, fun x => x.map rank, ?_⟩
  intro x fits y fits'
  cases x with
  | none =>
    cases y with
    | none => exact ⟨iff_of_false nofun (lt_irrefl _), iff_of_true .missing rfl⟩
    | some w => exact ⟨iff_of_false nofun not_top_lt, iff_of_false nofun WithTop.top_ne_coe⟩
  | some v =>
    cases y with
    | none =>
      exact ⟨iff_of_true (.given v) (WithTop.coe_lt_top _), iff_of_false nofun WithTop.coe_ne_top⟩
    | some w =>
      obtain ⟨before, level⟩ := told v (fits v rfl) w (fits' w rfl)
      rw [sooner_some, alike_some, before, level]
      exact ⟨WithTop.coe_lt_coe.symm, WithTop.coe_inj.symm⟩

/-- Descending order reverses the ranks. -/
theorem ranked_leads {fit : Option Value → Prop} (ranked : Ranked fit Sooner Alike) :
    ∀ ascending, Ranked fit (Leads ascending) Alike
  | true => ranked
  | false => ranked.flip

variable {order : Fields Bool} {items : List Value} {a b : Value}

/-- Each column of a sortable order holds values of one comparable kind. -/
theorem Sortable.compared (sortable : Sortable order items) {name : String}
    (inside : name ∈ order.keys) :
    ∃ kind, Value.Compared kind ∧ ∀ item ∈ items, ∀ v, givenIn item name = some v → kind v := by
  rcases sortable name inside with numbers | texts
  · exact ⟨_, Value.compared_numbers, numbers⟩
  · exact ⟨_, Value.compared_texts, texts⟩

theorem Sortable.tail {e : String × Bool} {rest : Fields Bool}
    (sortable : Sortable (e :: rest) items) : Sortable rest items :=
  fun name inside => sortable name (List.mem_cons_of_mem e.1 inside)

/-- The order of items is one of ranks, field by field. -/
theorem ranked_precedes (sortable : Sortable order items) :
    Ranked (· ∈ items) (Precedes order) (Ties order) := by
  induction order with
  | nil =>
    refine ⟨Unit, inferInstance, fun _ => (), fun a _ b _ => ⟨?_, ?_⟩⟩
    · exact iff_of_false id (lt_irrefl _)
    · exact iff_of_true trivial rfl
  | cons e rest ih =>
    obtain ⟨name, ascending⟩ := e
    have inside : name ∈ Fields.keys ((name, ascending) :: rest) := List.mem_cons_self
    obtain ⟨kind, compared, fits⟩ := sortable.compared inside
    exact ((ranked_leads (ranked_given compared.ranked) ascending).comap fits).thenBy
      (ih sortable.tail)

/-- Rows of items with distinct places. -/
theorem ranked_ahead (sortable : Sortable order items) :
    Ranked (fun row : Value × Nat => row.1 ∈ items) (Ahead order)
      fun a b => Ties order a.1 b.1 ∧ a.2 = b.2 := by
  have byItem : Ranked (fun row : Value × Nat => row.1 ∈ items)
      (fun a b => Precedes order a.1 b.1) fun a b => Ties order a.1 b.1 :=
    (ranked_precedes sortable).comap fun _ inside => inside
  have byPlace : Ranked (fun row : Value × Nat => row.1 ∈ items)
      (fun a b => a.2 < b.2) fun a b => a.2 = b.2 :=
    ⟨Nat, inferInstance, Prod.snd, fun _ _ _ _ => ⟨Iff.rfl, Iff.rfl⟩⟩
  exact byItem.thenBy byPlace

/-! ## The comparison -/

/-- On values of one kind the comparison answers with their order. -/
theorem comparePresent_iff {kind : Value → Prop} (compared : Value.Compared kind) {v w : Value}
    (here : kind v) (there : kind w) :
    ∃ c, comparePresent v w = .ok c ∧ (c = .lt ↔ v.Less w) ∧ (c = .gt ↔ w.Less v) := by
  obtain ⟨less, answer, lessIff⟩ := compared.answers v here w there
  obtain ⟨greater, answer', greaterIff⟩ := compared.answers w there v here
  have never := compared.ranked.asymm here there
  rw [← lessIff, ← greaterIff] at never
  rw [comparePresent, answer, answer', ← lessIff, ← greaterIff]
  refine ⟨_, rfl, ?_⟩
  cases less <;> cases greater <;> simp_all

/-- The same where values may be missing. -/
theorem compareValues_iff {kind : Value → Prop} (compared : Value.Compared kind)
    {x y : Option Value} (fits : ∀ v, given x = some v → kind v)
    (fits' : ∀ v, given y = some v → kind v) :
    ∃ c, compareValues x y = .ok c ∧ (c = .lt ↔ Sooner (given x) (given y)) ∧
      (c = .gt ↔ Sooner (given y) (given x)) := by
  unfold compareValues
  unfold given at *
  generalize x.bind Value.present? = x at *
  generalize y.bind Value.present? = y at *
  cases x with
  | none =>
    cases y with
    | none => exact ⟨_, rfl, iff_of_false nofun nofun, iff_of_false nofun nofun⟩
    | some w => exact ⟨_, rfl, iff_of_false nofun nofun, iff_of_true rfl (.given w)⟩
  | some v =>
    cases y with
    | none => exact ⟨_, rfl, iff_of_true rfl (.given v), iff_of_false nofun nofun⟩
    | some w =>
      obtain ⟨c, answer, less, greater⟩ := comparePresent_iff compared (fits v rfl) (fits' w rfl)
      exact ⟨c, answer, less.trans sooner_some.symm, greater.trans sooner_some.symm⟩

/-- The order as the entries that the comparison reads. -/
def entries (order : Fields Bool) : SortOrder :=
  .ofFields (order.mapValues fun ascending => .int (if ascending then 1 else -1))

/-- The directions a document writes are read back. -/
theorem isAscending_direction (ascending : Bool) :
    isAscending (.int (if ascending then 1 else -1)) = ascending := by
  cases ascending <;> rfl

/-- Records are compared by the first column, and where that is level by the others. -/
theorem compareItems_cons (record : a.isMapping = true) (record' : b.isMapping = true)
    (name : String) (direction : Value) (rest : Fields Value) :
    compareItems (.ofFields ((name, direction) :: rest)) a b =
      (compareValues (a.field? name) (b.field? name)).bind fun
        | .eq => compareItems (.ofFields rest) a b
        | c => .ok (if isAscending direction then c else c.swap) := by
  have read : ∀ item : Value, item.isMapping = true →
      ∃ es, item.entries = .ok es ∧ es.get? (.str name) = item.field? name := by
    intro item record
    cases item <;> first | exact ⟨_, rfl, rfl⟩ | cases record
  obtain ⟨es, known, field⟩ := read a record
  obtain ⟨es', known', field'⟩ := read b record'
  have shape : Entries.ofFields ((name, direction) :: rest) =
      (.str name, direction) :: Entries.ofFields rest := rfl
  rw [shape, compareItems, known, known', ← field, ← field']
  rfl

theorem before_object (sort : Fields Value) (a b : Value) :
    SortOrder.before (.object sort) a b = (compareItems (.ofFields sort) a b).map (· == .lt) := by
  change (compareItems (.ofFields sort) a b >>= fun c => pure (c == .lt)) = _
  cases compareItems (.ofFields sort) a b <;> rfl

/-- The comparison of items says which one precedes. -/
theorem compareItems_iff (sortable : Sortable order items)
    (records : ∀ item ∈ items, item.isMapping = true) (here : a ∈ items) (there : b ∈ items) :
    ∃ c, compareItems (entries order) a b = .ok c ∧ (c = .lt ↔ Precedes order a b) := by
  induction order with
  | nil => exact ⟨.eq, rfl, iff_of_false nofun id⟩
  | cons e rest ih =>
    obtain ⟨name, ascending⟩ := e
    have inside : name ∈ Fields.keys ((name, ascending) :: rest) := List.mem_cons_self
    obtain ⟨kind, compared, fits⟩ := sortable.compared inside
    have level := (ranked_given compared.ranked).level_iff (fits a here) (fits b there)
    obtain ⟨c, others, othersIff⟩ := ih sortable.tail
    have first : compareItems (entries ((name, ascending) :: rest)) a b =
        (compareValues (a.field? name) (b.field? name)).bind fun
          | .eq => compareItems (entries rest) a b
          | c => .ok (if ascending then c else c.swap) := by
      rw [entries, Fields.mapValues, List.map_cons,
        compareItems_cons (records a here) (records b there), isAscending_direction]
      rfl
    rw [first, Precedes, Leads, level]
    obtain ⟨d, answer, less, greater⟩ : ∃ d,
        compareValues (a.field? name) (b.field? name) = .ok d ∧
          (d = .lt ↔ Sooner (givenIn a name) (givenIn b name)) ∧
          (d = .gt ↔ Sooner (givenIn b name) (givenIn a name)) :=
      compareValues_iff compared (fits a here) (fits b there)
    rw [← less, ← greater, answer]
    cases d with
    | lt => exact ⟨_, rfl, by cases ascending <;> simp⟩
    | gt => exact ⟨_, rfl, by cases ascending <;> simp⟩
    | eq => exact ⟨c, others, othersIff.trans (by cases ascending <;> simp)⟩

/-! ## Rows -/

theorem places_differ {rows : List (Value × Nat)} (same : rows.Perm items.zipIdx) :
    rows.Pairwise fun a b => a.2 ≠ b.2 := by
  have places : (items.zipIdx.map Prod.snd).Nodup := by
    rw [List.zipIdx_map_snd]
    exact List.nodup_range'
  exact List.pairwise_map.1 ((same.map Prod.snd).nodup_iff.2 places)

theorem item_of_row {rows : List (Value × Nat)} (same : rows.Perm items.zipIdx) {row : Value × Nat}
    (inside : row ∈ rows) : row.1 ∈ items := by
  have there := List.mem_map_of_mem (f := Prod.fst) (same.mem_iff.1 inside)
  rwa [List.zipIdx_map_fst] at there

/-- Sorting by the document's order puts first what precedes. -/
theorem before_document (sortable : Sortable order items)
    (records : ∀ item ∈ items, item.isMapping = true) (here : a ∈ items) (there : b ∈ items)
    {t : Bool} (first : t = true ↔ Precedes order a b) :
    SortOrder.before (document order) a b = .ok t := by
  obtain ⟨c, compared, precedes⟩ := compareItems_iff sortable records here there
  have same : (c == .lt) = t := by
    rw [Bool.eq_iff_iff, beq_iff_eq, precedes, first]
  rw [← same, document, before_object, ← entries, compared]
  rfl

/-- Of two rows the later one is ahead only if it precedes, which is what the sort asks. -/
theorem laterTold_rows {β : Type} [LinearOrder β] {rank : Value × Nat → β}
    (sortable : Sortable order items) (records : ∀ item ∈ items, item.isMapping = true)
    (told : ∀ a b : Value × Nat, a.1 ∈ items → b.1 ∈ items → (Ahead order a b ↔ rank a < rank b)) :
    Sorting.LaterTold rank Prod.fst (SortOrder.before (document order)) items.zipIdx := by
  have inTurn : items.zipIdx.Pairwise fun b a => b.2 < a.2 := by
    refine List.pairwise_map.1 ?_
    rw [List.zipIdx_map_snd]
    exact List.pairwise_lt_range'
  refine List.Pairwise.imp_of_mem (fun {b a} there here earlier => ?_) inTurn
  have inItems := item_of_row (List.Perm.refl _) here
  have inItems' := item_of_row (List.Perm.refl _) there
  refine before_document sortable records inItems inItems' ?_
  rw [decide_eq_true_iff, ← told a b inItems inItems', Ahead]
  exact or_iff_left fun tied => Nat.lt_asymm earlier tied.2

/-- **Sorting by several fields** finds the one way to put the items in order, in which of any two
the earlier one precedes or, if they tie in all fields, came first. -/
theorem apply_ordered (any : order ≠ []) (records : ∀ item ∈ items, item.isMapping = true)
    (sortable : Sortable order items) :
    ∃ rows : List (Value × Nat),
      SortOrder.apply (document order) (.list items) = .ok (rows.map Prod.fst) ∧
      rows.Perm items.zipIdx ∧ rows.Pairwise (Ahead order) ∧
      ∀ others : List (Value × Nat), others.Perm items.zipIdx → others.Pairwise (Ahead order) →
        others = rows := by
  have ranked := ranked_ahead sortable
  obtain ⟨β, _, rank, told⟩ := id ranked
  obtain ⟨rows, same, inOrder, sorted⟩ := Sorting.sort_ranked items.zipIdx
    (laterTold_rows sortable records fun a b here there => (told a here b there).1)
  rw [List.zipIdx_map_fst] at sorted
  have ahead : rows.Pairwise (Ahead order) := by
    refine List.Pairwise.imp_of_mem (fun {a b} here there ⟨least, differ⟩ => ?_)
      (inOrder.and (places_differ same))
    obtain ⟨first, level⟩ := told a (item_of_row same here) b (item_of_row same there)
    exact first.2 (lt_of_le_of_ne least fun equal => differ (level.2 equal).2)
  refine ⟨rows, ?_, same, ahead, fun others same' ahead' => ?_⟩
  · have truthy : (document order).truthy = true := by
      cases order with
      | nil => exact absurd rfl any
      | cons e rest => rfl
    change (if (document order).truthy then Sorting.sort _ items else pure items) = _
    rw [if_pos truthy, sorted]
  · refine List.Perm.eq_of_pairwise (fun a b here there first last => ?_) ahead' ahead
      (same'.trans same.symm)
    exact absurd last (ranked.asymm (item_of_row same' here) (item_of_row same there) first)

/-- By club, and within a club the best score first. -/
def byClub : Fields Bool := [("club", true), ("score", false)]

def player (club score : Value) (name : String) : Value :=
  .object [("club", club), ("score", score), ("name", .str name)]

def ann : Value := player (.str "b") (.float (.infinite true)) "Ann"
def bob : Value := player .null (.int 7) "Bob"
def cem : Value := player (.str "a") (.int 1) "Cem"
def dan : Value := player (.str "a") (.bool true) "Dan"
def eva : Value := player (.str "b") (.int 3) "Eva"
def fay : Value := player (.str "a") .null "Fay"

def players : List Value := [ann, bob, cem, dan, eva, fay]

theorem sortable_players : Sortable byClub players := by
  intro name inside
  rcases List.mem_cons.1 inside with rfl | inside
  · right
    intro item member v found
    simp only [players, List.mem_cons, List.not_mem_nil, or_false] at member
    rcases member with rfl | rfl | rfl | rfl | rfl | rfl <;> cases found <;> rfl
  · cases List.mem_singleton.1 inside
    left
    intro item member v found
    simp only [players, List.mem_cons, List.not_mem_nil, or_false] at member
    rcases member with rfl | rfl | rfl | rfl | rfl | rfl <;> cases found <;> exact ⟨_, _, rfl, rfl⟩

/-- Who has no score is best, one and true tie, and who has no club is last. -/
theorem apply_ordered_players :
    byClub ≠ [] ∧ (∀ item ∈ players, item.isMapping = true) ∧ Sortable byClub players ∧
    ∃ rows : List (Value × Nat), rows.map Prod.fst = [fay, cem, dan, eva, ann, bob] ∧
      SortOrder.apply (document byClub) (.list players) = .ok (rows.map Prod.fst) ∧
      rows.Perm players.zipIdx ∧ rows.Pairwise (Ahead byClub) := by
  have any : byClub ≠ [] := List.cons_ne_nil _ _
  have records : ∀ item ∈ players, item.isMapping = true := by decide
  obtain ⟨rows, sorted, same, ahead, -⟩ := apply_ordered any records sortable_players
  refine ⟨any, records, sortable_players, rows, ?_, sorted, same, ahead⟩
  exact Except.ok.inj (sorted.symm.trans rfl)

end SortOrder

end ShapeContract
