import Mathlib.Data.List.Forall2
import ShapeContract.Introspection

/-!
# Visits

Introspection visits the paths of a target in order, and attaches to the tree what it makes of each.
-/

set_option autoImplicit false

namespace ShapeContract.Introspection

/-- The tree after one more path has been visited. -/
def visit (descend : String → Target → Traced Rule) (tree : Rule)
    (e : String × Except Failure Descriptor) : Traced Rule := do
  let d ← .lift e.2
  let rule ← ruleOf (descend e.1) d
  pure (tree.attach e.1 rule)

theorem outcome_visit (descend : String → Target → Traced Rule) (tree : Rule) (name : String)
    (d : Descriptor) : (visit descend tree (name, .ok d)).outcome =
      (ruleOf (descend name) d).outcome.map (tree.attach name) := by
  simp only [visit, Traced.outcome_bind, Traced.outcome_lift]
  change ((ruleOf (descend name) d).outcome >>= fun r => .ok (tree.attach name r)) = _
  cases (ruleOf (descend name) d).outcome <;> rfl

/-- The tree of all paths, and the record of it. -/
def visitAll (catalog : Catalog) (depth : Nat) (target : Target)
    (descend : String → Target → Traced Rule) (entries : List (String × Except Failure Descriptor)) :
    Traced Rule := do
  let tree ← entries.foldlM (visit descend) Rule.empty
  .note (noteDone target.typeName depth (target.name catalog) tree.kids.length)
  pure tree

theorem outcome_visitAll_eq (catalog : Catalog) (depth : Nat) (target : Target)
    (descend : String → Target → Traced Rule) (entries : List (String × Except Failure Descriptor)) :
    (visitAll catalog depth target descend entries).outcome =
      (entries.foldlM (visit descend) Rule.empty).outcome := by
  simp only [visitAll, Traced.outcome_bind]
  cases (entries.foldlM (visit descend) Rule.empty).outcome <;> rfl

/-- Visits that all make a rule attach the rules in order. -/
theorem outcome_visitAll {catalog : Catalog} {paths : Fields Descriptor} (depth : Nat)
    (target : Target) (descend : String → Target → Traced Rule) {rules : Fields Rule}
    (each : List.Forall₂ (fun r e => r.1 = e.1 ∧ (ruleOf (descend e.1) e.2).outcome = .ok r.2)
      rules paths) :
    (visitAll catalog depth target descend (paths.map fun e => (e.1, .ok e.2))).outcome =
      .ok (rules.foldl (fun tree e => tree.attach e.1 e.2) Rule.empty) := by
  have visits (tree : Rule) :
      ((paths.map fun e => (e.1, .ok e.2)).foldlM (visit descend) tree).outcome =
        .ok (rules.foldl (fun tree e => tree.attach e.1 e.2) tree) := by
    induction each generalizing tree with
    | nil => rfl
    | @cons r e _ _ here _ ih =>
      obtain ⟨same, read⟩ := here
      have first : (visit descend tree (e.1, .ok e.2)).outcome = .ok (tree.attach r.1 r.2) := by
        rw [outcome_visit, read, same]
        rfl
      rw [List.map_cons, List.foldlM_cons, Traced.outcome_bind, first]
      exact ih _
  rw [outcome_visitAll_eq, visits]

theorem walk_succ (catalog : Catalog) (bound : Int) (depth : Nat) (path : String) (levels : Nat)
    (target : Target) : walk catalog bound depth path (levels + 1) target = (do
      let entries ← .lift (target.entries catalog)
      visitAll catalog depth target
        (fun name => walk catalog bound (depth + 1) (path ++ name ++ ".") levels) entries) := rfl

end ShapeContract.Introspection
