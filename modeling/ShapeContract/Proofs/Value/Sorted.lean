import Mathlib.Data.List.Sort
import Mathlib.Data.String.Basic
import ShapeContract.Value.JsonText

/-!
# Entries sorted by name

Sorting keeps the entries and puts their names in order. Where names are distinct the order of the
entries before does not matter: `sorted_eq_of_perm`.
-/

set_option autoImplicit false

namespace ShapeContract.Fields

variable {α β : Type}

/-- Names in order. -/
def Ascends (e f : String × α) : Prop := e.1 ≤ f.1

theorem insertSorted_perm (e : String × α) (fs : Fields α) : (insertSorted e fs).Perm (e :: fs) := by
  induction fs with
  | nil => exact List.Perm.refl _
  | cons f rest ih =>
    unfold insertSorted
    split
    · exact List.Perm.refl _
    · exact (ih.cons f).trans (List.Perm.swap e f rest)

theorem sorted_perm (fs : Fields α) : fs.sorted.Perm fs := by
  induction fs with
  | nil => exact List.Perm.refl _
  | cons e rest ih => exact (insertSorted_perm e (sorted rest)).trans (ih.cons e)

theorem insertSorted_ascends (e : String × α) {fs : Fields α} (inOrder : fs.Pairwise Ascends) :
    (insertSorted e fs).Pairwise Ascends := by
  induction fs with
  | nil => exact List.pairwise_singleton _ e
  | cons f rest ih =>
    obtain ⟨first, others⟩ := List.pairwise_cons.1 inOrder
    unfold insertSorted
    split
    next less =>
      refine List.pairwise_cons.2 ⟨?_, inOrder⟩
      intro g member
      rcases List.mem_cons.1 member with rfl | later
      · exact le_of_lt less
      · exact le_trans (le_of_lt less) (first g later)
    next notLess =>
      refine List.pairwise_cons.2 ⟨?_, ih others⟩
      intro g member
      rcases List.mem_cons.1 ((insertSorted_perm e rest).mem_iff.1 member) with rfl | later
      · exact not_lt.1 notLess
      · exact first g later

theorem sorted_ascends (fs : Fields α) : fs.sorted.Pairwise Ascends := by
  induction fs with
  | nil => exact List.Pairwise.nil
  | cons e rest ih => exact insertSorted_ascends e ih

/-- Entries of one mapping are told apart by their names. -/
theorem eq_of_mem_of_nodup {fs : Fields α} (own : fs.keys.Nodup) {e f : String × α} (inE : e ∈ fs)
    (inF : f ∈ fs) (same : e.1 = f.1) : e = f :=
  List.inj_on_of_nodup_map own inE inF same

/-- **Sorted entries do not depend on the order before.** -/
theorem sorted_eq_of_perm {fs gs : Fields α} (own : fs.keys.Nodup) (moved : fs.Perm gs) :
    fs.sorted = gs.sorted := by
  have perm := ((sorted_perm fs).trans moved).trans (sorted_perm gs).symm
  refine perm.eq_of_pairwise ?_ (sorted_ascends fs) (sorted_ascends gs)
  intro e f inE inF up down
  have inF : f ∈ fs := moved.mem_iff.2 ((sorted_perm gs).mem_iff.1 inF)
  exact eq_of_mem_of_nodup own ((sorted_perm fs).mem_iff.1 inE) inF (le_antisymm up down)

theorem insertSorted_mapValues (f : α → β) (e : String × α) (fs : Fields α) :
    insertSorted (e.1, f e.2) (mapValues f fs) = mapValues f (insertSorted e fs) := by
  induction fs with
  | nil => rfl
  | cons g rest ih =>
    simp only [mapValues, List.map_cons] at ih ⊢
    unfold insertSorted
    split
    · rfl
    · simp only [List.map_cons]
      exact congrArg _ ih

theorem sorted_mapValues (f : α → β) (fs : Fields α) :
    (mapValues f fs).sorted = mapValues f fs.sorted := by
  induction fs with
  | nil => rfl
  | cons e rest ih =>
    have step := insertSorted_mapValues f e (sorted rest)
    rw [← ih] at step
    exact step

end ShapeContract.Fields
