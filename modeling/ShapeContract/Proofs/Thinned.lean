import Mathlib.Data.List.Basic

/-!
# Lists with some items left out

`Thinned P xs ys`: the items of `ys` are those of `xs` in their order, but for some that are left
out, each of which `P` allows to be.
-/

set_option autoImplicit false

namespace ShapeContract

/-- The items of the first list, some of those that may be left out missing in the second. -/
inductive Thinned {α : Type} (P : α → Prop) : List α → List α → Prop
  | nil : Thinned P [] []
  | kept {xs ys : List α} (x : α) (rest : Thinned P xs ys) : Thinned P (x :: xs) (x :: ys)
  | dropped {xs ys : List α} {x : α} (free : P x) (rest : Thinned P xs ys) : Thinned P (x :: xs) ys

namespace Thinned

variable {α β : Type} {P : α → Prop} {xs ys us vs : List α}

theorem refl (P : α → Prop) (xs : List α) : Thinned P xs xs := by
  induction xs with
  | nil => exact .nil
  | cons x xs ih => exact .kept x ih

theorem sublist (thinned : Thinned P xs ys) : ys.Sublist xs := by
  induction thinned with
  | nil => exact .slnil
  | kept x _ ih => exact .cons_cons x ih
  | dropped _ _ ih => exact .cons _ ih

theorem append (first : Thinned P xs ys) (second : Thinned P us vs) :
    Thinned P (xs ++ us) (ys ++ vs) := by
  induction first with
  | nil => exact second
  | kept x _ ih => exact .kept x ih
  | dropped free _ ih => exact .dropped free ih

theorem map {Q : β → Prop} (f : α → β) (allowed : ∀ x, P x → Q (f x)) (thinned : Thinned P xs ys) :
    Thinned Q (xs.map f) (ys.map f) := by
  induction thinned with
  | nil => exact .nil
  | kept x _ ih => exact .kept _ ih
  | dropped free _ ih => exact .dropped (allowed _ free) ih

/-- What is left out besides makes no difference. -/
theorem filter (q : α → Bool) (thinned : Thinned P xs ys) :
    Thinned P (xs.filter q) (ys.filter q) := by
  induction thinned with
  | nil => exact .nil
  | kept x _ ih =>
    rw [List.filter_cons, List.filter_cons]
    split
    · exact .kept x ih
    · exact ih
  | dropped free _ ih =>
    rw [List.filter_cons]
    split
    · exact .dropped free ih
    · exact ih

/-- A list without the items that do not pass. -/
theorem of_filter {q : α → Bool} (free : ∀ x ∈ xs, q x = false → P x) :
    Thinned P xs (xs.filter q) := by
  induction xs with
  | nil => exact .nil
  | cons x xs ih =>
    obtain ⟨first, rest⟩ := List.forall_mem_cons.1 free
    rw [List.filter_cons]
    split
    · exact .kept x (ih rest)
    next fails => exact .dropped (first (eq_false_of_ne_true fails)) (ih rest)

theorem eq_nil (thinned : Thinned P [] ys) : ys = [] := by
  cases thinned
  rfl

/-- What holds of each item that may be left out holds of all items before exactly if after. -/
theorem all_iff {q : α → Prop} (free : ∀ x, P x → q x) (thinned : Thinned P xs ys) :
    (∀ x ∈ xs, q x) ↔ ∀ y ∈ ys, q y := by
  induction thinned with
  | nil => exact Iff.rfl
  | kept x _ ih => rw [List.forall_mem_cons, List.forall_mem_cons, ih]
  | dropped allowed _ ih => rw [List.forall_mem_cons, ih, and_iff_right (free _ allowed)]

end Thinned

end ShapeContract
