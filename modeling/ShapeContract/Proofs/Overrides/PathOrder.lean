import ShapeContract.Overrides.Apply

/-!
# The order of path lists

Applying overrides asks of a path list only which paths are in it, so overrides whose path lists are
in another order are applied alike.
-/

set_option autoImplicit false

namespace ShapeContract.Overrides

/-- Overrides with every path list in some order, and the same appended definitions. -/
structure Reordered (o p : Overrides) : Prop where
  included : o.included.Perm p.included
  excluded : o.excluded.Perm p.excluded
  optional : o.optional.Perm p.optional
  required : o.required.Perm p.required
  appended : o.appended = p.appended

section Lists

variable {vs ws : List Value}

theorem any_perm (moved : vs.Perm ws) (f : Value → Bool) : vs.any f = ws.any f := by
  rw [Bool.eq_iff_iff, List.any_eq_true, List.any_eq_true]
  constructor
  · rintro ⟨v, inside, holds⟩
    exact ⟨v, moved.mem_iff.1 inside, holds⟩
  · rintro ⟨v, inside, holds⟩
    exact ⟨v, moved.mem_iff.2 inside, holds⟩

theorem all_perm (moved : vs.Perm ws) (f : Value → Bool) : vs.all f = ws.all f := by
  rw [List.all_eq_not_any_not, List.all_eq_not_any_not, any_perm moved]

theorem lists_perm (moved : vs.Perm ws) (path : String) : lists vs path = lists ws path :=
  any_perm moved _

theorem checkPaths_perm (moved : vs.Perm ws) : checkPaths vs = checkPaths ws := by
  rw [checkPaths, checkPaths, all_perm moved]

end Lists

variable {o p : Overrides}

theorem checkAll_reordered (same : Reordered o p) : o.checkAll = p.checkAll := by
  rw [checkAll, checkAll, checkPaths_perm same.included, checkPaths_perm same.excluded,
    checkPaths_perm same.optional, checkPaths_perm same.required]

theorem keeps_reordered (same : Reordered o p) (path : String) : o.keeps path = p.keeps path := by
  rw [keeps, keeps, same.included.isEmpty_eq, lists_perm same.included, lists_perm same.excluded]

theorem adjust_reordered (same : Reordered o p) (path : String) (r : Rule) :
    o.adjust path r = p.adjust path r := by
  rw [adjust, adjust, lists_perm same.required, lists_perm same.optional]

theorem selectLeaves_reordered (same : Reordered o p) (leaves : Fields Rule) :
    o.selectLeaves leaves = p.selectLeaves leaves := by
  simp only [selectLeaves, keeps_reordered same, adjust_reordered same]

/-- **Overrides with reordered path lists make one tree**, or fail in one way. -/
theorem apply_reordered (same : Reordered o p) (tree : Rule) : o.apply tree = p.apply tree := by
  rw [apply, apply, effective, effective, checkAll_reordered same, selectLeaves_reordered same,
    same.appended]

end ShapeContract.Overrides
