import Mathlib.Algebra.Order.Floor.Div
import ShapeContract.Query.Page

/-!
# Pages of a list

Whatever a page number and a page size are given as, they come to a page that counts from one and has
from one to 200 items, unless one of them is infinite. The size depends on what is given for it alone,
so the pages of one size follow each other without a gap: put together they are the list, and each
item is on just one of them.
-/

set_option autoImplicit false

namespace ShapeContract

/-- No infinite number, which is the one thing that stands for no page. -/
def Value.IsBounded (v : Value) : Prop := ∀ negative, v ≠ .float (.infinite negative)

namespace Page

/-! ## What is asked for -/

theorem wholeOf_of_isBounded {v : Value} (bounded : v.IsBounded) : ∃ given, wholeOf v = .ok given := by
  cases v with
  | float x =>
    cases x with
    | infinite negative => exact absurd rfl (bounded negative)
    | _ => exact ⟨_, rfl⟩
  | _ => exact ⟨_, rfl⟩

theorem orElse_of_pos {i : Int} (positive : 0 < i) (other : Int) : orElse (some i) other = i := by
  have some : i ≠ 0 := by omega
  simp [orElse, some]

/-- How many items there are on a page of the size that is given. -/
def sizeOf (given : Option Int) : Nat := (max 1 (min maxSize (orElse given defaultSize))).toNat

theorem sizeOf_bounds (given : Option Int) : 1 ≤ sizeOf given ∧ sizeOf given ≤ 200 := by
  unfold sizeOf maxSize
  omega

/-- Numbers and sizes are read apart from each other. -/
theorem ofValues_eq {number size : Value} {n s : Option Int} (asked : wholeOf number = .ok n)
    (given : wholeOf size = .ok s) :
    ofValues number size = .ok ⟨max 1 (orElse n 1), sizeOf s⟩ := by
  have whole : ((sizeOf s : Nat) : Int) = max 1 (min maxSize (orElse s defaultSize)) := by
    unfold sizeOf
    omega
  rw [ofValues, asked, given, whole]
  rfl

/-! ## What is on a page -/

/-- The page of a number among the pages of a size. -/
def numbered (k n : Nat) : Page := ⟨k, n⟩

variable {α : Type}

theorem cut_numbered (k n : Nat) (xs : List α) :
    cut (numbered k n) xs = (xs.drop ((k - 1) * n)).take n := by
  have before : (skip (numbered k n)).toNat = (k - 1) * n := by
    cases k with
    | zero => simp [skip, numbered]
    | succ j =>
      have product : skip (numbered (j + 1) n) = (j * n : Nat) := by simp [skip, numbered]
      rw [product, Int.toNat_natCast, Nat.add_sub_cancel]
  rw [cut, before]
  rfl

/-- The first pages are the list up to where the last of them ends. -/
theorem flatMap_cut (n : Nat) (xs : List α) (count : Nat) :
    ((List.range count).flatMap fun k => cut (numbered (k + 1) n) xs) = xs.take (count * n) := by
  induction count with
  | zero => simp
  | succ count ih =>
    rw [List.range_succ, List.flatMap_append, ih, List.flatMap_singleton, cut_numbered,
      Nat.succ_mul, List.take_add, Nat.add_sub_cancel]

/-- A page has the items at the places that it covers. -/
theorem mem_cut_zipIdx {xs : List α} {i : Nat} {x : α} (inside : (x, i) ∈ xs.zipIdx) (k n : Nat) :
    (x, i) ∈ cut (numbered k n) xs.zipIdx ↔ (k - 1) * n ≤ i ∧ i < (k - 1) * n + n := by
  have there : xs[i]? = some x := List.mem_zipIdx_iff_getElem?.1 inside
  rw [cut_numbered, List.mem_iff_getElem?]
  simp only [List.getElem?_take, List.getElem?_drop, List.getElem?_zipIdx]
  constructor
  · rintro ⟨j, found⟩
    split at found
    next early =>
      obtain ⟨y, -, same⟩ := Option.map_eq_some_iff.1 found
      have place := congrArg Prod.snd same
      simp only at place
      omega
    next => cases found
  · rintro ⟨from', to'⟩
    have place : (k - 1) * n + (i - (k - 1) * n) = i := by omega
    refine ⟨i - (k - 1) * n, ?_⟩
    rw [if_pos (by omega), place, there]
    simp

/-- Every place is covered by one page. -/
theorem existsUnique_page {n : Nat} (some : 0 < n) (i : Nat) :
    ∃! k : Nat, 0 < k ∧ (k - 1) * n ≤ i ∧ i < (k - 1) * n + n := by
  refine ⟨i / n + 1, ⟨Nat.succ_pos _, ?_, ?_⟩, ?_⟩
  · exact Nat.div_mul_le_self i n
  · exact Nat.lt_div_mul_add some
  · rintro k ⟨positive, from', to'⟩
    have quotient : i / n = k - 1 := Nat.div_eq_of_lt_le from' (by rw [Nat.succ_mul]; exact to')
    omega

/-- **Pages partition a list.** A size that is not infinite comes to one size for all pages, from one
to 200. Every number that is not infinite gives a page of that size, a positive whole number, as such
or as a text, the page of that number. The pages up to the last one that is needed are the list, those
after it are empty, and every item, with its place, is on just one page. -/
theorem cut_partition {size : Value} (bounded : size.IsBounded) (xs : List α) :
    ∃ n : Nat,
      (∀ number : Value, number.IsBounded → ∃ p : Page, ofValues number size = .ok p ∧
        1 ≤ p.number ∧ 1 ≤ p.size ∧ p.size ≤ 200 ∧ p.size = n ∧ p.limit = p.size ∧
        p.skip = (p.number - 1) * p.size) ∧
      (∀ (number : Value) (k : Nat), 0 < k → wholeOf number = .ok (some (k : Int)) →
        ofValues number size = .ok (numbered k n)) ∧
      ((List.range (xs.length ⌈/⌉ n)).flatMap fun k => cut (numbered (k + 1) n) xs) = xs ∧
      (∀ k : Nat, xs.length ⌈/⌉ n < k → cut (numbered k n) xs = []) ∧
      ∀ row ∈ xs.zipIdx, ∃! k : Nat, 0 < k ∧ row ∈ cut (numbered k n) xs.zipIdx := by
  obtain ⟨given, known⟩ := wholeOf_of_isBounded bounded
  obtain ⟨least, most⟩ := sizeOf_bounds given
  have needed (k : Nat) : xs.length ⌈/⌉ sizeOf given ≤ k ↔ xs.length ≤ k * sizeOf given := by
    rw [ceilDiv_le_iff_le_smul least, smul_eq_mul, Nat.mul_comm]
  refine ⟨sizeOf given, ?_, ?_, ?_, ?_, ?_⟩
  · intro number bounded
    obtain ⟨asked, read⟩ := wholeOf_of_isBounded bounded
    have first : 1 ≤ max 1 (orElse asked 1) := le_max_left 1 _
    have some : (1 : Int) ≤ sizeOf given := by omega
    have few : (sizeOf given : Int) ≤ 200 := by omega
    exact ⟨_, ofValues_eq read known, first, some, few, rfl, rfl, rfl⟩
  · intro number k positive read
    have whole : max 1 (k : Int) = k := by omega
    rw [ofValues_eq read known, orElse_of_pos (by omega), whole]
    rfl
  · rw [flatMap_cut]
    exact List.take_of_length_le ((needed _).1 (le_refl _))
  · intro k late
    have past : xs.length ≤ (k - 1) * sizeOf given := (needed (k - 1)).1 (by omega)
    rw [cut_numbered, List.drop_eq_nil_of_le past, List.take_nil]
  · rintro ⟨x, i⟩ inside
    obtain ⟨k, ⟨positive, covers⟩, only⟩ := existsUnique_page least i
    refine ⟨k, ⟨positive, (mem_cut_zipIdx inside k _).2 covers⟩, ?_⟩
    rintro j ⟨positive, there⟩
    exact only j ⟨positive, (mem_cut_zipIdx inside j _).1 there⟩

/-- Twenty-three items in sevens, the size and the number of the second page given as texts. -/
theorem cut_partition_sevens :
    (Value.str " 7 ").IsBounded ∧ ofValues (.str "+2") (.str " 7 ") = .ok (numbered 2 7) ∧
      ((List.range 4).flatMap fun k => cut (numbered (k + 1) 7) (List.range 23)) = List.range 23 ∧
      cut (numbered 4 7) (List.range 23) = [21, 22] ∧ cut (numbered 5 7) (List.range 23) = [] := by
  have size : (Value.str " 7 ").IsBounded := nofun
  obtain ⟨n, -, asked, whole, later, -⟩ := cut_partition size (List.range 23)
  have second : ofValues (.str "+2") (.str " 7 ") = .ok (numbered 2 7) := by decide
  have sevens : numbered 2 n = numbered 2 7 :=
    Except.ok.inj ((asked (.str "+2") 2 (by decide) (by decide)).symm.trans second)
  obtain rfl : n = 7 := Int.ofNat.inj (congrArg Page.size sevens)
  exact ⟨size, second, whole, by decide, later 5 (by decide)⟩

end Page

end ShapeContract
