import Mathlib.Data.Prod.Lex
import Mathlib.Order.Antisymmetrization
import Mathlib.Order.Compare
import Mathlib.Order.WithBot
import ShapeContract.Failure

/-!
# Comparisons that rank

A comparison that does not fail, says the opposite of what it says the other way round, and goes on
from one pair to the next, tells the order of some ranks. Such comparisons are read off a part,
turned around, and put one after the other.
-/

set_option autoImplicit false

namespace ShapeContract

/-- A comparison never fails and tells the order of some ranks. -/
def Graded {α : Type} (fit : α → Prop) (f : α → α → Except Failure Ordering) : Prop :=
  ∃ (β : Type) (_ : LinearOrder β) (rank : α → β), ∀ a, fit a → ∀ b, fit b →
    f a b = .ok (compare (rank a) (rank b))

/-- What the comparison says not to come after another. -/
def NotAfter {α : Type} (f : α → α → Except Failure Ordering) (a b : α) : Prop :=
  ∃ c, f a b = .ok c ∧ c.isLE = true

variable {α : Type} {fit : α → Prop} {f : α → α → Except Failure Ordering}

/-- The ranks are the classes of what ties. -/
theorem graded_of_trans (turned : ∀ a b, f b a = (f a b).map .swap)
    (compared : ∀ a, fit a → ∀ b, fit b → ∃ c, f a b = .ok c)
    (trans : ∀ a, fit a → ∀ b, fit b → ∀ c, fit c → NotAfter f a b → NotAfter f b c → NotAfter f a c) :
    Graded fit f := by
  classical
  have total : ∀ a b : {a // fit a}, NotAfter f a b ∨ NotAfter f b a := by
    intro a b
    obtain ⟨c, known⟩ := compared a a.2 b b.2
    have back := turned a b
    rw [known] at back
    cases c with
    | lt => exact .inl ⟨_, known, rfl⟩
    | eq => exact .inl ⟨_, known, rfl⟩
    | gt => exact .inr ⟨_, back, rfl⟩
  let order : Preorder {a // fit a} :=
    { le := fun a b => NotAfter f a b
      le_refl := fun a => (total a a).elim id id
      le_trans := fun a b c => trans a a.2 b b.2 c c.2 }
  have : Std.Total (α := {a // fit a}) (· ≤ ·) := ⟨total⟩
  let rank (a : α) : WithBot (Antisymmetrization {a // fit a} (· ≤ ·)) :=
    if here : fit a then toAntisymmetrization (· ≤ ·) (⟨a, here⟩ : {a // fit a}) else ⊥
  refine ⟨_, inferInstance, rank, fun a here b there => ?_⟩
  have le_iff : ∀ {a b}, fit a → fit b → (rank a ≤ rank b ↔ NotAfter f a b) := by
    intro a b here there
    simp only [rank, dif_pos here, dif_pos there, WithBot.coe_le_coe,
      toAntisymmetrization_le_toAntisymmetrization_iff]
    rfl
  obtain ⟨c, known⟩ := compared a here b there
  have back := turned a b
  rw [known] at back
  have first := le_iff here there
  have last := le_iff there here
  simp only [NotAfter, known, back, Except.map, Except.ok.injEq, exists_eq_left'] at first last
  rw [known]
  cases c with
  | lt => exact congrArg _ (compare_lt_iff_lt.2 (not_le.1 (last.not.2 nofun))).symm
  | eq => exact congrArg _ (compare_eq_iff_eq.2 (le_antisymm (first.2 rfl) (last.2 rfl))).symm
  | gt => exact congrArg _ (compare_gt_iff_gt.2 (not_le.1 (first.not.2 nofun))).symm

theorem Graded.comap {γ : Type} {g : γ → α} {fit' : γ → Prop} (graded : Graded fit f)
    (fits : ∀ c, fit' c → fit (g c)) : Graded fit' fun c d => f (g c) (g d) := by
  obtain ⟨β, _, rank, told⟩ := graded
  exact ⟨β, _, fun c => rank (g c), fun c here d there => told _ (fits c here) _ (fits d there)⟩

theorem Graded.congr {g : α → α → Except Failure Ordering} (graded : Graded fit f)
    (same : ∀ a, fit a → ∀ b, fit b → g a b = f a b) : Graded fit g := by
  obtain ⟨β, _, rank, told⟩ := graded
  exact ⟨β, _, rank, fun a here b there => (same a here b there).trans (told a here b there)⟩

theorem Graded.flip (graded : Graded fit f) : Graded fit fun a b => (f a b).map .swap := by
  obtain ⟨β, _, rank, told⟩ := graded
  refine ⟨βᵒᵈ, inferInstance, fun a => OrderDual.toDual (rank a), fun a here b there => ?_⟩
  simp only [told a here b there]
  refine congrArg Except.ok ((compare_iff _ _).2 ?_).symm
  exact toDual_compares_toDual.2 (Ordering.compares_swap.2 ((compare_iff _ _).1 rfl))

/-- What ties in a first comparison is told by a second one. -/
theorem Graded.thenBy {g : α → α → Except Failure Ordering} (first : Graded fit f)
    (second : Graded fit g) :
    Graded fit fun a b => (f a b).bind fun
      | .eq => g a b
      | c => .ok c := by
  obtain ⟨β, _, rank, told⟩ := first
  obtain ⟨β', _, rank', told'⟩ := second
  refine ⟨β ×ₗ β', inferInstance, fun a => toLex (rank a, rank' a), fun a here b there => ?_⟩
  simp only [told a here b there, told' a here b there]
  change _ = Except.ok ((compare (rank a) (rank b)).then (compare (rank' a) (rank' b)))
  cases compare (rank a) (rank b) <;> rfl

end ShapeContract
