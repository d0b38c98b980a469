import Mathlib.Data.List.Chain
import Mathlib.Data.List.Sort
import Mathlib.Order.Basic
import ShapeContract.Sorting

/-!
# Sorting items that have ranks

Items stand for rows, and rows have ranks in a linear order. A row is only ever asked whether it is
before one that came earlier. Where each such question is answered by the ranks, sorting does not
fail, its result is a rearrangement of the rows, and the ranks are in order: `sort_ranked`. For
items that stand for elements of a linear order this is `sort_spec`.
-/

set_option autoImplicit false

namespace ShapeContract.Sorting

section

variable {α β γ ε : Type} [LinearOrder β] {rank : γ → β} {f : γ → α}
  {before : α → α → Except ε Bool}

/-- Whether one row is before another is answered by their ranks. -/
def Told (rank : γ → β) (f : γ → α) (before : α → α → Except ε Bool) (x y : γ) : Prop :=
  before (f x) (f y) = .ok (decide (rank x < rank y))

/-- Every row can be told from those that came earlier. -/
def LaterTold (rank : γ → β) (f : γ → α) (before : α → α → Except ε Bool) (xs : List γ) : Prop :=
  xs.Pairwise fun y x => Told rank f before x y

/-- The ranks do not descend. -/
def InOrder (rank : γ → β) (xs : List γ) : Prop := xs.Pairwise fun x y => rank x ≤ rank y

/-- One step of a run: downward if it descends, otherwise not downward. -/
def Goes (rank : γ → β) (descending : Bool) (x y : γ) : Prop :=
  decide (rank y < rank x) = descending

theorem extendRun_spec (descending : Bool) (xs : List γ) (last : γ) (run : List α)
    (told : LaterTold rank f before (last :: xs)) :
    ∃ more tail : List γ, xs = more ++ tail ∧ (last :: more).IsChain (Goes rank descending) ∧
      extendRun before descending (f last) run (xs.map f) =
        .ok ((more.map f).reverse ++ run, tail.map f) := by
  induction xs generalizing last run with
  | nil => exact ⟨[], [], rfl, List.IsChain.singleton last, rfl⟩
  | cons x xs ih =>
    obtain ⟨first, rest⟩ := List.pairwise_cons.1 told
    have here : before (f x) (f last) = .ok (decide (rank x < rank last)) :=
      first x List.mem_cons_self
    by_cases goes : decide (rank x < rank last) = descending
    · obtain ⟨more, tail, split, chain, extended⟩ := ih x (f x :: run) rest
      refine ⟨x :: more, tail, by simp [split], List.IsChain.cons_cons goes chain, ?_⟩
      simp [extendRun, here, bind, Except.bind, goes, extended]
    · refine ⟨[], x :: xs, rfl, List.IsChain.singleton last, ?_⟩
      simp [extendRun, here, bind, Except.bind, goes, pure, Except.pure]

/-- A descending run is in order backwards. -/
theorem inOrder_of_descending {xs : List γ} (chain : xs.IsChain (Goes rank true)) :
    InOrder rank xs.reverse := by
  have down : (xs.map rank).IsChain (· > ·) :=
    List.isChain_map_of_isChain rank (fun _ _ goes => of_decide_eq_true goes) chain
  rw [InOrder, List.pairwise_reverse]
  exact (List.pairwise_map.1 down.pairwise).imp fun less => le_of_lt less

theorem inOrder_of_ascending {xs : List γ} (chain : xs.IsChain (Goes rank false)) :
    InOrder rank xs := by
  have up : (xs.map rank).IsChain (· ≤ ·) :=
    List.isChain_map_of_isChain rank (fun _ _ goes => not_lt.1 (of_decide_eq_false goes)) chain
  exact List.pairwise_map.1 up.pairwise

/-- The leading run has the rows of a front part, in order. -/
theorem leadingRun_spec (xs : List γ) (told : LaterTold rank f before xs) :
    ∃ front run tail : List γ, xs = front ++ tail ∧ run.Perm front ∧ InOrder rank run ∧
      leadingRun before (xs.map f) = .ok (run.map f, tail.map f) := by
  match xs with
  | [] => exact ⟨[], [], [], rfl, List.Perm.nil, List.Pairwise.nil, rfl⟩
  | [x] => exact ⟨[x], [x], [], rfl, List.Perm.refl _, List.pairwise_singleton _ x, rfl⟩
  | x :: y :: rest =>
    obtain ⟨first, others⟩ := List.pairwise_cons.1 told
    have here : before (f y) (f x) = .ok (decide (rank y < rank x)) := first y List.mem_cons_self
    obtain ⟨more, tail, split, chain, extended⟩ :=
      extendRun_spec (decide (rank y < rank x)) rest y [f y, f x] others
    have whole : (x :: y :: more).IsChain (Goes rank (decide (rank y < rank x))) :=
      List.IsChain.cons_cons rfl chain
    have parts : x :: y :: rest = (x :: y :: more) ++ tail := by rw [split]; rfl
    by_cases descending : rank y < rank x
    · simp only [descending, decide_true] at whole extended
      refine ⟨x :: y :: more, (x :: y :: more).reverse, tail, parts, List.reverse_perm _,
        inOrder_of_descending whole, ?_⟩
      simp [leadingRun, here, bind, Except.bind, pure, Except.pure, descending, extended]
    · simp only [descending, decide_false] at whole extended
      refine ⟨x :: y :: more, x :: y :: more, tail, parts, List.Perm.refl _,
        inOrder_of_ascending whole, ?_⟩
      simp [leadingRun, here, bind, Except.bind, pure, Except.pure, descending, extended]

/-- The place that halving finds: nothing before it is greater, everything after it is. -/
theorem place_spec {sorted : List γ} (inOrder : InOrder rank sorted) (x : γ)
    (told : ∀ y ∈ sorted, Told rank f before x y) (fuel : Nat) :
    ∀ low high, low ≤ high → high ≤ sorted.length → high - low ≤ fuel →
      (∀ y ∈ sorted.take low, rank y ≤ rank x) → (∀ y ∈ sorted.drop high, rank x < rank y) →
      ∃ p, place before (sorted.map f) (f x) fuel low high = .ok p ∧
        (∀ y ∈ sorted.take p, rank y ≤ rank x) ∧ ∀ y ∈ sorted.drop p, rank x < rank y := by
  induction fuel with
  | zero =>
    intro low high ordered _ small below above
    have same : low = high := by omega
    exact ⟨low, rfl, below, same ▸ above⟩
  | succ fuel ih =>
    intro low high ordered bounded small below above
    by_cases done : low ≥ high
    · have same : low = high := by omega
      exact ⟨low, by simp [place, done], below, same ▸ above⟩
    · have inside : low + (high - low) / 2 < sorted.length := by omega
      generalize middle : low + (high - low) / 2 = mid at inside
      have found : (sorted.map f)[mid]? = some (f sorted[mid]) := by simp [inside]
      have here : before (f x) (f sorted[mid]) = .ok (decide (rank x < rank sorted[mid])) :=
        told _ (List.getElem_mem inside)
      have split : sorted = sorted.take mid ++ sorted[mid] :: sorted.drop (mid + 1) := by simp
      rw [split, InOrder, List.pairwise_append, List.pairwise_cons] at inOrder
      obtain ⟨_, ⟨after, _⟩, before_mid⟩ := inOrder
      by_cases less : rank x < rank sorted[mid]
      · obtain ⟨p, placed, rest⟩ := ih low mid (by omega) (by omega) (by omega) below (by
          intro y member
          rw [List.drop_eq_getElem_cons inside] at member
          rcases List.mem_cons.1 member with rfl | later
          · exact less
          · exact lt_of_lt_of_le less (after y later))
        refine ⟨p, ?_, rest⟩
        simp [place, done, middle, found, here, bind, Except.bind, less, placed]
      · obtain ⟨p, placed, rest⟩ := ih (mid + 1) high (by omega) bounded (by omega) (by
          intro y member
          rw [List.take_add_one, List.mem_append] at member
          rcases member with earlier | at_mid
          · exact le_trans (before_mid y earlier _ List.mem_cons_self) (not_lt.1 less)
          · simp only [List.getElem?_eq_getElem inside, Option.toList_some,
              List.mem_singleton] at at_mid
            exact at_mid ▸ not_lt.1 less) above
        refine ⟨p, ?_, rest⟩
        simp [place, done, middle, found, here, bind, Except.bind, less, placed]

theorem insertAll_spec (xs : List γ) (sorted : List γ) (inOrder : InOrder rank sorted)
    (across : ∀ y ∈ sorted, ∀ x ∈ xs, Told rank f before x y)
    (told : LaterTold rank f before xs) :
    ∃ ys : List γ, ys.Perm (sorted ++ xs) ∧ InOrder rank ys ∧
      insertAll before (sorted.map f) (xs.map f) = .ok (ys.map f) := by
  induction xs generalizing sorted with
  | nil => exact ⟨sorted, by simp, inOrder, rfl⟩
  | cons x xs ih =>
    obtain ⟨first, rest⟩ := List.pairwise_cons.1 told
    obtain ⟨p, placed, below, above⟩ := place_spec inOrder x
      (fun y inside => across y inside x List.mem_cons_self) sorted.length 0 sorted.length
      (Nat.zero_le _) le_rfl (by omega) (by simp) (by simp)
    have cut : sorted.take p ++ sorted.drop p = sorted := List.take_append_drop p sorted
    have moved : (sorted.take p ++ x :: sorted.drop p).Perm (x :: sorted) := by
      have front : (sorted.take p ++ x :: sorted.drop p).Perm
          (x :: (sorted.take p ++ sorted.drop p)) := List.perm_middle
      rwa [cut] at front
    have next : InOrder rank (sorted.take p ++ x :: sorted.drop p) := by
      rw [← cut, InOrder, List.pairwise_append] at inOrder
      rw [InOrder, List.pairwise_append, List.pairwise_cons]
      refine ⟨inOrder.1, ⟨fun y member => le_of_lt (above y member), inOrder.2.1⟩, ?_⟩
      intro y earlier z member
      rcases List.mem_cons.1 member with rfl | later
      · exact below y earlier
      · exact inOrder.2.2 y earlier z later
    have acrossNext : ∀ y ∈ sorted.take p ++ x :: sorted.drop p, ∀ z ∈ xs,
        Told rank f before z y := by
      intro y inside z later
      rcases List.mem_cons.1 (moved.mem_iff.1 inside) with rfl | old
      · exact first z later
      · exact across y old z (List.mem_cons_of_mem x later)
    obtain ⟨ys, perm, sortedYs, inserted⟩ := ih _ next acrossNext rest
    refine ⟨ys, perm.trans ?_, sortedYs, ?_⟩
    · exact (moved.append_right xs).trans List.perm_middle.symm
    · simpa [insertAll, placed, bind, Except.bind] using inserted

/-- **Sorting does not fail, keeps the rows and puts their ranks in order.** -/
theorem sort_ranked (xs : List γ) (told : LaterTold rank f before xs) :
    ∃ ys : List γ, ys.Perm xs ∧ InOrder rank ys ∧ sort before (xs.map f) = .ok (ys.map f) := by
  obtain ⟨front, run, tail, parts, same, inOrder, led⟩ := leadingRun_spec xs told
  obtain ⟨-, later, across⟩ := List.pairwise_append.1 (parts ▸ told)
  obtain ⟨ys, perm, sorted, inserted⟩ := insertAll_spec tail run inOrder
    (fun y inside x last => across y (same.mem_iff.1 inside) x last) later
  refine ⟨ys, perm.trans ?_, sorted, ?_⟩
  · rw [parts]
    exact same.append_right tail
  · simp [sort, led, bind, Except.bind, inserted]

end

/-- Items that stand for elements of a linear order are put in that order. -/
theorem sort_spec {α β ε : Type} [LinearOrder β] {f : β → α} {before : α → α → Except ε Bool}
    (compares : ∀ x y, before (f x) (f y) = .ok (decide (x < y))) (xs : List β) :
    ∃ ys : List β, ys.Perm xs ∧ ys.Pairwise (· ≤ ·) ∧ sort before (xs.map f) = .ok (ys.map f) :=
  @sort_ranked α β β ε _ id f before xs (List.pairwise_of_forall fun y x => compares x y)

end ShapeContract.Sorting
