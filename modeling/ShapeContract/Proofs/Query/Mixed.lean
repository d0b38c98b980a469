import ShapeContract.Proofs.Graded
import ShapeContract.Proofs.Query.Ordering
import ShapeContract.Proofs.Value.OwnOrder

/-!
# Sorting mixed columns

Values of a field that do not compare by their own order compare by their texts. The two together are
no order of all values: ten is before two as a text, two before nine as a text, and ten is after nine
as a number. `orderly_iff` says which columns are spared this, namely those in which no value stands
between two others by its text, against their own order, while it compares with neither. Rows with
such columns are sorted in the same way however they came, but for those that tie: `apply_orderly`.
-/

set_option autoImplicit false

namespace ShapeContract.SortOrder

open Criterion (given)
open Value (ownOrder IsData)

/-! ## Items -/

/-- A column is one of ranks if comparing its values is transitive. -/
structure Orderly (column : List (Option Value)) : Prop where
  compared : ∀ x ∈ column, ∀ y ∈ column, ∃ c, compareValues x y = .ok c
  trans : ∀ x ∈ column, ∀ y ∈ column, ∀ z ∈ column,
    NotAfter compareValues x y → NotAfter compareValues y z → NotAfter compareValues x z

/-- Comparing by text the other way round swaps the answer. -/
theorem compareTexts_swap (v w : Value) : compareTexts w v = (compareTexts v w).map .swap := by
  rw [compareTexts, compareTexts, Bool.and_comm]
  split
  · exact congrArg _ (Std.OrientedCmp.eq_swap)
  · rfl

/-- Values that have an order of their own are compared by it, the others by their texts. -/
theorem comparePresent_eq (v w : Value) :
    comparePresent v w = match ownOrder v w with
      | some c => .ok c
      | none => compareTexts v w := by
  rw [comparePresent, ownOrder]
  cases Value.lt? w v <;> cases Value.lt? v w <;> rfl

/-- The same of present and missing values. -/
theorem compareValues_swap (x y : Option Value) :
    compareValues y x = (compareValues x y).map .swap := by
  unfold compareValues
  cases x.bind Value.present? with
  | none => cases y.bind Value.present? <;> rfl
  | some v =>
    cases y.bind Value.present? with
    | none => rfl
    | some w =>
      simp only
      rw [comparePresent_eq, comparePresent_eq, Value.ownOrder_swap v w]
      cases ownOrder v w with
      | some c => rfl
      | none => exact compareTexts_swap v w

variable {sort : Fields Value} {items : List Value}

/-- Records with orderly columns are graded as a whole: the columns are compared in turn. -/
theorem graded_items (records : ∀ item ∈ items, item.isMapping = true)
    (orderly : ∀ name ∈ sort.keys, Orderly (items.map fun item => item.field? name)) :
    Graded (· ∈ items) (compareItems (.ofFields sort)) := by
  induction sort with
  | nil => exact ⟨Unit, inferInstance, fun _ => (), fun a _ b _ => rfl⟩
  | cons e rest ih =>
    obtain ⟨name, direction⟩ := e
    obtain ⟨here, later⟩ := List.forall_mem_cons.1 orderly
    have column : Graded (· ∈ items) fun a b => compareValues (a.field? name) (b.field? name) :=
      (graded_of_trans compareValues_swap here.compared here.trans).comap
        fun item inside => List.mem_map_of_mem inside
    cases ascending : isAscending direction with
    | true =>
      refine (column.thenBy (ih later)).congr fun a here b there => ?_
      rw [compareItems_cons (records a here) (records b there), ascending]
      rfl
    | false =>
      refine (column.flip.thenBy (ih later)).congr fun a here b there => ?_
      rw [compareItems_cons (records a here) (records b there), ascending]
      rcases compareValues (a.field? name) (b.field? name) with e | c
      · rfl
      · cases c <;> rfl

/-- Two lists with the same items but for the order of those that tie. -/
def SameButTies (sort : Fields Value) (as bs : List Value) : Prop :=
  List.Forall₂ (fun a b => compareItems (.ofFields sort) a b = .ok .eq) as bs

/-- A comparison told by ranks puts the lower rank first. -/
theorem before_of_rank {β : Type} [LinearOrder β] {rank : Value → β} {a b : Value}
    (told : compareItems (.ofFields sort) a b = .ok (compare (rank a) (rank b))) :
    SortOrder.before (.object sort) a b = .ok (decide (rank a < rank b)) := by
  rw [before_object, told]
  refine congrArg Except.ok ?_
  rw [Bool.eq_iff_iff, beq_iff_eq, decide_eq_true_iff, compare_lt_iff_lt]

/-- Where ranks tell how items compare, sorting puts these in order. -/
theorem apply_ranked {β : Type} [LinearOrder β] {rank : Value → β} {xs : List Value}
    (told : ∀ a ∈ xs, ∀ b ∈ xs, compareItems (.ofFields sort) a b = .ok (compare (rank a) (rank b))) :
    ∃ out, SortOrder.apply (.object sort) (.list xs) = .ok out ∧ out.Perm xs ∧
      Sorting.InOrder rank out := by
  cases sort with
  | nil =>
    refine ⟨xs, rfl, .refl xs, List.pairwise_of_forall_mem_list fun a here b there => ?_⟩
    have tied : compare (rank a) (rank b) = .eq := (Except.ok.inj (told a here b there)).symm
    exact (compare_eq_iff_eq.1 tied).le
  | cons e rest =>
    have later : Sorting.LaterTold rank id (SortOrder.before (.object (e :: rest))) xs :=
      List.pairwise_of_forall_mem_list fun b there a here => before_of_rank (told a here b there)
    obtain ⟨out, same, inOrder, sorted⟩ := Sorting.sort_ranked xs later
    rw [List.map_id, List.map_id] at sorted
    exact ⟨out, sorted, same, inOrder⟩

/-- **Sorting by orderly columns** finds an order of the items, and from any other arrangement of
them the same one, but for items that tie. -/
theorem apply_orderly (records : ∀ item ∈ items, item.isMapping = true)
    (orderly : ∀ name ∈ sort.keys, Orderly (items.map fun item => item.field? name))
    {items' : List Value} (moved : items'.Perm items) :
    ∃ out out', SortOrder.apply (.object sort) (.list items) = .ok out ∧
      SortOrder.apply (.object sort) (.list items') = .ok out' ∧ out.Perm items ∧
      out.Pairwise (NotAfter (compareItems (.ofFields sort))) ∧ SameButTies sort out out' := by
  obtain ⟨β, _, rank, told⟩ := graded_items records orderly
  obtain ⟨out, done, same, inOrder⟩ := apply_ranked told
  have told' : ∀ a ∈ items', ∀ b ∈ items',
      compareItems (.ofFields sort) a b = .ok (compare (rank a) (rank b)) :=
    fun a here b there => told a (moved.mem_iff.1 here) b (moved.mem_iff.1 there)
  obtain ⟨out', done', same', inOrder'⟩ := apply_ranked told'
  have inside : ∀ a ∈ out, a ∈ items := fun a => same.mem_iff.1
  have inside' : ∀ a ∈ out', a ∈ items := fun a here => moved.mem_iff.1 (same'.mem_iff.1 here)
  refine ⟨out, out', done, done', same, ?_, ?_⟩
  · refine List.Pairwise.imp_of_mem (fun {a b} here there least => ?_) inOrder
    refine ⟨_, told a (inside a here) b (inside b there), ?_⟩
    exact Ordering.isLE_iff_ne_gt.2 (compare_le_iff_le.2 least)
  · have ranks : out.map rank = out'.map rank :=
      List.Perm.eq_of_pairwise (fun _ _ _ _ => le_antisymm) (List.pairwise_map.2 inOrder)
        (List.pairwise_map.2 inOrder') ((same.trans (moved.symm.trans same'.symm)).map rank)
    have pairs : List.Forall₂ (fun a b => rank a = rank b) out out' := by
      rw [← List.forall₂_map_right_iff, ← List.forall₂_map_left_iff, ranks, List.forall₂_eq_eq_eq]
    obtain ⟨count, level⟩ := List.forall₂_iff_zip.1 pairs
    refine List.forall₂_iff_zip.2 ⟨count, fun {a b} paired => ?_⟩
    obtain ⟨here, there⟩ := List.of_mem_zip paired
    rw [told a (inside a here) b (inside' b there), compare_eq_iff_eq.2 (level paired)]

/-! ## Which columns are orderly -/

/-- What the rows of a column are given. -/
def held (column : List (Option Value)) : List Value := column.filterMap given

/-- Two values compare, be it by their texts. -/
def Compares (v w : Value) : Prop :=
  ownOrder v w ≠ none ∨ (v.displayable = true ∧ w.displayable = true)

/-- A third value compares with two values by its text only, and puts them in the order opposite to
their own. -/
structure Crossed (v w u : Value) : Prop where
  first : ownOrder v u = none
  second : ownOrder w u = none
  above : w.display ≤ u.display
  below : u.display ≤ v.display
  against : ownOrder v w = some .lt ∨ (ownOrder v w = some .eq ∧ w.display < v.display)

instance (v w : Value) : Decidable (Compares v w) := by
  unfold Compares
  infer_instance

instance (v w u : Value) : Decidable (Crossed v w u) :=
  decidable_of_iff (ownOrder v u = none ∧ ownOrder w u = none ∧ w.display ≤ u.display ∧
      u.display ≤ v.display ∧
      (ownOrder v w = some .lt ∨ (ownOrder v w = some .eq ∧ w.display < v.display)))
    ⟨fun ⟨first, second, above, below, against⟩ => ⟨first, second, above, below, against⟩,
      fun ⟨first, second, above, below, against⟩ => ⟨first, second, above, below, against⟩⟩

/-- A value does not come after another. -/
inductive Until (v w : Value) : Prop
  | less (less : ownOrder v w = some .lt)
  | level (level : ownOrder v w = some .eq)
  | text (apart : ownOrder v w = none) (first : v.display ≤ w.display)

section

variable {v w u : Value}

/-- Values with no order of their own stand until each other by their texts. -/
theorem Until.display_le (earlier : Until v w) (apart : ownOrder v w = none) :
    v.display ≤ w.display := by
  cases earlier with
  | less less => cases apart.symm.trans less
  | level level => cases apart.symm.trans level
  | text _ first => exact first

/-- The comparison answers exactly on comparable values. -/
theorem exists_comparePresent : (∃ c, comparePresent v w = .ok c) ↔ Compares v w := by
  rw [comparePresent_eq, Compares, compareTexts]
  cases ownOrder v w with
  | some c => simp
  | none => cases v.displayable <;> cases w.displayable <;> simp

theorem notAfter_iff (compares : Compares v w) : NotAfter comparePresent v w ↔ Until v w := by
  rw [NotAfter, comparePresent_eq]
  cases known : ownOrder v w with
  | some c =>
    simp only [Except.ok.injEq, exists_eq_left']
    constructor
    · intro least
      cases c with
      | lt => exact .less known
      | eq => exact .level known
      | gt => cases least
    · rintro (less | level | apart)
      · cases known.symm.trans less
        rfl
      · cases known.symm.trans level
        rfl
      · cases known.symm.trans apart
  | none =>
    obtain ⟨written, written'⟩ := compares.resolve_left (not_not_intro known)
    simp only [compareTexts, written, written', Bool.and_true, if_true, Except.ok.injEq,
      exists_eq_left', Ordering.isLE_iff_ne_gt]
    exact compare_le_iff_le.trans ⟨.text known, fun earlier => earlier.display_le known⟩

/-- Of two values one stands until the other, or the comparison puts it strictly after. -/
theorem until_or (v w : Value) :
    Until v w ∨ ownOrder w v = some .lt ∨ (ownOrder v w = none ∧ w.display < v.display) := by
  cases known : ownOrder v w with
  | none =>
    rcases le_or_gt v.display w.display with first | last
    · exact .inl (.text known first)
    · exact .inr (.inr ⟨rfl, last⟩)
  | some c =>
    cases c with
    | lt => exact .inl (.less known)
    | eq => exact .inl (.level known)
    | gt => exact .inr (.inl (Value.ownOrder_gt_iff.1 known))

variable {P : Value → Prop}

/-- Where no value crosses two others, the order goes on from one pair to the next. -/
theorem Until.trans (data : ∀ v, P v → IsData v)
    (free : ∀ v w u, P v → P w → P u → ¬ Crossed v w u) (hereV : P v) (hereW : P w) (hereU : P u)
    (first : Until v w) (second : Until w u) : Until v u := by
  have dataV := data v hereV
  have dataW := data w hereW
  have dataU := data u hereU
  cases first with
  | less less =>
    cases second with
    | less less' => exact .less (dataV.ownOrder_trans dataW dataU less less')
    | level level' =>
      have same := dataW.equal_of_level dataU level'
      exact .less ((dataV.ownOrder_congr_right dataW dataU same).symm.trans less)
    | text apart' next =>
      -- The third value cannot be less than the first, or it would compare with the second.
      rcases until_or v u with done | after | ⟨apart, last⟩
      · exact done
      · have back := dataU.ownOrder_trans dataV dataW after less
        cases apart'.symm.trans (Value.ownOrder_gt_iff.2 back)
      · exact absurd ⟨apart, apart', next, last.le, .inl less⟩ (free v w u hereV hereW hereU)
  | level level =>
    have same := dataV.ownOrder_congr dataW dataU (dataV.equal_of_level dataW level)
    cases second with
    | less less' => exact .less (same.trans less')
    | level level' => exact .level (same.trans level')
    | text apart' next =>
      have apart := same.trans apart'
      refine .text apart (not_lt.1 fun last => free v w u hereV hereW hereU ?_)
      exact ⟨apart, apart', next, last.le, .inr ⟨level, next.trans_lt last⟩⟩
  | text apart first =>
    have apartBack := Value.ownOrder_none_iff.1 apart
    cases second with
    | less less' =>
      rcases until_or v u with done | after | ⟨apart', last⟩
      · exact done
      · cases apartBack.symm.trans (dataW.ownOrder_trans dataU dataV less' after)
      · refine absurd ?_ (free w u v hereW hereU hereV)
        exact ⟨apartBack, Value.ownOrder_none_iff.1 apart', last.le, first, .inl less'⟩
    | level level' =>
      have same := dataW.equal_of_level dataU level'
      have apart' := (dataV.ownOrder_congr_right dataW dataU same).symm.trans apart
      refine .text apart' (not_lt.1 fun last => free w u v hereW hereU hereV ?_)
      exact ⟨apartBack, Value.ownOrder_none_iff.1 apart', last.le, first,
        .inr ⟨level', last.trans_le first⟩⟩
    | text apart' next =>
      -- Here it is the outer two that may compare, with the middle one between their texts.
      rcases until_or v u with done | after | ⟨-, last⟩
      · exact done
      · refine absurd ?_ (free u v w hereU hereV hereW)
        exact ⟨Value.ownOrder_none_iff.1 apart', apart, first, next, .inl after⟩
      · exact absurd (first.trans next) (not_le.2 last)

/-- A value that crosses two others closes a circle. -/
theorem Crossed.not_trans (crossed : Crossed v w u)
    (trans : ∀ v w u, P v → P w → P u → Until v w → Until w u → Until v u) (hereV : P v)
    (hereW : P w) (hereU : P u) : False := by
  obtain ⟨first, second, above, below, against⟩ := crossed
  have up : Until w u := .text second above
  have down : Until u v := .text (Value.ownOrder_none_iff.1 first) below
  rcases against with less | ⟨level, last⟩
  · cases trans w u v hereW hereU hereV up down with
    | less less' => cases (Value.ownOrder_gt_iff.2 less').symm.trans less
    | level level' => cases (Value.ownOrder_eq_iff.1 level').symm.trans less
    | text apart => cases (Value.ownOrder_none_iff.1 apart).symm.trans less
  · have left := trans v w u hereV hereW hereU (.level level) up
    have right := trans u v w hereU hereV hereW down (.level level)
    have between := (left.display_le first).trans (right.display_le (Value.ownOrder_none_iff.1 second))
    exact absurd between (not_le.2 last)

end

section

variable {column : List (Option Value)} {x y : Option Value} {v w : Value}

theorem compareValues_given (here : given x = some v) (there : given y = some w) :
    compareValues x y = comparePresent v w := by
  unfold given at here there
  rw [compareValues, here, there]

/-- A missing value comes last, so nothing is after it. -/
theorem notAfter_missing (gone : given y = none) : NotAfter compareValues x y := by
  unfold given at gone
  rw [NotAfter, compareValues, gone]
  cases x.bind Value.present? with
  | none => exact ⟨_, rfl, rfl⟩
  | some v => exact ⟨_, rfl, rfl⟩

/-- Only what is given does not come after something given. -/
theorem exists_given (earlier : NotAfter compareValues x y) (there : given y = some w) :
    ∃ v, given x = some v := by
  unfold given at there ⊢
  rw [NotAfter, compareValues, there] at earlier
  cases here : x.bind Value.present? with
  | none =>
    rw [here] at earlier
    obtain ⟨c, known, least⟩ := earlier
    cases known
    cases least
  | some v => exact ⟨v, rfl⟩

/-- Two given values are compared as values. -/
theorem notAfter_given (here : given x = some v) (there : given y = some w)
    (compares : Compares v w) : NotAfter compareValues x y ↔ Until v w := by
  rw [← notAfter_iff compares, NotAfter, NotAfter, compareValues_given here there]

/-- The values a column holds are the ones given in it. -/
theorem mem_held_iff : v ∈ held column ↔ ∃ x ∈ column, given x = some v := List.mem_filterMap

/-- Comparing values of a column is transitive just where all of them compare and none crosses two
others. -/
theorem orderly_iff (data : ∀ v ∈ held column, IsData v) :
    Orderly column ↔ (∀ v ∈ held column, ∀ w ∈ held column, Compares v w) ∧
      ∀ v ∈ held column, ∀ w ∈ held column, ∀ u ∈ held column, ¬ Crossed v w u := by
  constructor
  · intro orderly
    have compares : ∀ v ∈ held column, ∀ w ∈ held column, Compares v w := by
      intro v heldV w heldW
      obtain ⟨x, inX, here⟩ := mem_held_iff.1 heldV
      obtain ⟨y, inY, there⟩ := mem_held_iff.1 heldW
      rw [← exists_comparePresent, ← compareValues_given here there]
      exact orderly.compared x inX y inY
    refine ⟨compares, fun v heldV w heldW u heldU crossed => ?_⟩
    refine crossed.not_trans (P := (· ∈ held column)) ?_ heldV heldW heldU
    intro v w u heldV heldW heldU first second
    obtain ⟨x, inX, here⟩ := mem_held_iff.1 heldV
    obtain ⟨y, inY, there⟩ := mem_held_iff.1 heldW
    obtain ⟨z, inZ, last⟩ := mem_held_iff.1 heldU
    rw [← notAfter_given here last (compares v heldV u heldU)]
    refine orderly.trans x inX y inY z inZ ?_ ?_
    · exact (notAfter_given here there (compares v heldV w heldW)).2 first
    · exact (notAfter_given there last (compares w heldW u heldU)).2 second
  · rintro ⟨compares, free⟩
    refine ⟨fun x inX y inY => ?_, fun x inX y inY z inZ first second => ?_⟩
    · cases there : given y with
      | none =>
        obtain ⟨c, known, -⟩ := notAfter_missing (x := x) there
        exact ⟨c, known⟩
      | some w =>
        cases here : given x with
        | none =>
          obtain ⟨c, known, -⟩ := notAfter_missing (x := y) here
          rw [compareValues_swap y x, known]
          exact ⟨_, rfl⟩
        | some v =>
          have heldV := mem_held_iff.2 ⟨x, inX, here⟩
          have heldW := mem_held_iff.2 ⟨y, inY, there⟩
          rw [compareValues_given here there]
          exact exists_comparePresent.2 (compares v heldV w heldW)
    · cases last : given z with
      | none => exact notAfter_missing last
      | some u =>
        obtain ⟨w, there⟩ := exists_given second last
        obtain ⟨v, here⟩ := exists_given first there
        have heldV := mem_held_iff.2 ⟨x, inX, here⟩
        have heldW := mem_held_iff.2 ⟨y, inY, there⟩
        have heldU := mem_held_iff.2 ⟨z, inZ, last⟩
        rw [notAfter_given here there (compares v heldV w heldW)] at first
        rw [notAfter_given there last (compares w heldW u heldU)] at second
        rw [notAfter_given here last (compares v heldV u heldU)]
        refine Until.trans data (fun v w u heldV heldW heldU => ?_) heldV heldW heldU first second
        exact free v heldV w heldW u heldU

end

/-- **Sorting mixed columns.** Comparing two values one way and the other way gives opposite answers,
or fails both times. Comparing data of a column is transitive just where all of it compares and none
crosses two others. Rows with such columns are sorted, and in the same way however they came, but for
those that tie. -/
theorem compare_mixed :
    (∀ x y, compareValues y x = (compareValues x y).map .swap) ∧
    (∀ column, (∀ v ∈ held column, IsData v) →
      (Orderly column ↔ (∀ v ∈ held column, ∀ w ∈ held column, Compares v w) ∧
        ∀ v ∈ held column, ∀ w ∈ held column, ∀ u ∈ held column, ¬ Crossed v w u)) ∧
    ∀ (sort : Fields Value) (items items' : List Value),
      (∀ item ∈ items, item.isMapping = true) →
      (∀ name ∈ sort.keys, Orderly (items.map fun item => item.field? name)) →
      items'.Perm items →
      ∃ out out', SortOrder.apply (.object sort) (.list items) = .ok out ∧
        SortOrder.apply (.object sort) (.list items') = .ok out' ∧ out.Perm items ∧
        out.Pairwise (NotAfter (compareItems (.ofFields sort))) ∧ SameButTies sort out out' :=
  ⟨compareValues_swap, fun _ data => orderly_iff data,
    fun _ _ _ records orderly moved => apply_orderly records orderly moved⟩

/-- A row with one value. -/
def row (v : Value) : Value := .object [("v", v)]

/-- Ascending by that value. -/
def byValue : Fields Value := [("v", .int 1)]

/-- Rows of which one has no value. -/
def scores : List Value :=
  [row (.int 10), row (.list [.int 1]), row (.str "n/a"), .object [], row (.int 9), row (.bool true),
    row (.object [("k", .null)]), row .null]

/-- Values of six kinds of which none crosses two others. -/
theorem compare_mixed_scores :
    (∀ v ∈ held (scores.map fun item => item.field? "v"), IsData v) ∧
    Orderly (scores.map fun item => item.field? "v") ∧
    ∃ out out', SortOrder.apply (.object byValue) (.list scores) = .ok out ∧
      SortOrder.apply (.object byValue) (.list scores.reverse) = .ok out' ∧
      SameButTies byValue out out' := by
  have data : ∀ v ∈ held (scores.map fun item => item.field? "v"), IsData v := by
    have each : held (scores.map fun item => item.field? "v") =
      [.int 10, .list [.int 1], .str "n/a", .int 9, .bool true, .object [("k", .null)]] := rfl
    rw [each]
    simp only [List.forall_mem_cons, List.not_mem_nil, false_imp_iff, implies_true, and_true]
    refine ⟨.atom rfl, .list ?_, .atom rfl, .atom rfl, .atom rfl, .object (by decide) ?_⟩
    · exact List.forall_mem_singleton.2 (.atom rfl)
    · exact List.forall_mem_singleton.2 (.atom rfl)
  have orderly := (compare_mixed.2.1 _ data).2 ⟨by decide +kernel, by decide +kernel⟩
  obtain ⟨out, out', done, done', -, -, ties⟩ := compare_mixed.2.2 byValue scores scores.reverse
    (by decide) (List.forall_mem_singleton.2 orderly) (List.reverse_perm scores)
  exact ⟨data, orderly, out, out', done, done', ties⟩

/-- Rows of one column compare as their values. -/
theorem compareItems_row (v w : Value) :
    compareItems (.ofFields byValue) (row v) (row w) = compareValues (some v) (some w) := by
  rw [byValue, compareItems_cons rfl rfl]
  change (compareValues (some v) (some w)).bind _ = _
  rcases compareValues (some v) (some w) with e | c
  · rfl
  · cases c <;> rfl

theorem before_row (v w : Value) :
    SortOrder.before (.object byValue) (row v) (row w) =
      (compareValues (some v) (some w)).map (· == .lt) := by
  rw [before_object, compareItems_row]

/-- Ten is before two as a text, two is before nine as a text, and ten is after nine as a number. So
how the rows with these values are sorted depends on how they came, though no two of them tie. And
an integer that has no text does not compare with a text. -/
theorem not_transitive_mixed :
    NotAfter compareValues (some (.int 10)) (some (.str "2")) ∧
    NotAfter compareValues (some (.str "2")) (some (.int 9)) ∧
    ¬ NotAfter compareValues (some (.int 10)) (some (.int 9)) ∧
    SortOrder.apply (.object byValue) (.list [row (.int 10), row (.str "2"), row (.int 9)]) =
      .ok [row (.int 10), row (.str "2"), row (.int 9)] ∧
    SortOrder.apply (.object byValue) (.list [row (.int 9), row (.int 10), row (.str "2")]) =
      .ok [row (.int 9), row (.int 10), row (.str "2")] ∧
    ¬ SameButTies byValue [row (.int 10), row (.str "2"), row (.int 9)]
      [row (.int 9), row (.int 10), row (.str "2")] ∧
    compareValues (some (.int Value.integerLimit)) (some (.str "2")) = .error .valueMisuse := by
  have tenTwo : compareValues (some (.int 10)) (some (.str "2")) = .ok .lt := by decide +kernel
  have twoNine : compareValues (some (.str "2")) (some (.int 9)) = .ok .lt := by decide +kernel
  have tenNine : compareValues (some (.int 10)) (some (.int 9)) = .ok .gt := by decide +kernel
  have twoTen := compareValues_swap (some (.int 10)) (some (.str "2"))
  have nineTwo := compareValues_swap (some (.str "2")) (some (.int 9))
  rw [tenTwo] at twoTen
  rw [twoNine] at nineTwo
  refine ⟨⟨_, tenTwo, rfl⟩, ⟨_, twoNine, rfl⟩, ?_, ?_, ?_, ?_, ?_⟩
  · rintro ⟨c, known, least⟩
    cases tenNine.symm.trans known
    cases least
  -- Either arrangement goes up from row to row, so it is taken for sorted.
  · change Sorting.sort (SortOrder.before (.object byValue)) _ = _
    simp [Sorting.sort, Sorting.leadingRun, Sorting.extendRun, Sorting.insertAll, before_row, twoTen,
      nineTwo, bind, Except.bind, pure, Except.pure, Except.map]
  · change Sorting.sort (SortOrder.before (.object byValue)) _ = _
    simp [Sorting.sort, Sorting.leadingRun, Sorting.extendRun, Sorting.insertAll, before_row, tenNine,
      twoTen, bind, Except.bind, pure, Except.pure, Except.map]
  · rintro (_ | ⟨first, -⟩)
    rw [compareItems_row, tenNine] at first
    cases first
  · have unwritten : (Value.int Value.integerLimit).displayable = false :=
      decide_eq_false (Nat.lt_irrefl _)
    change comparePresent (.int Value.integerLimit) (.str "2") = _
    rw [comparePresent_eq, compareTexts, unwritten]
    rfl

end ShapeContract.SortOrder
