import ShapeContract.Query.Criteria
import ShapeContract.Query.Page
import ShapeContract.Query.Projection
import ShapeContract.Query.SortOrder

/-!
# Queries

A query filters items, sorts them, cuts out one page and projects what is left.
-/

set_option autoImplicit false

namespace ShapeContract

structure Query where
  criteria : Criteria := {}
  sort : Value := .null
  pageNumber : Value := .null
  pageSize : Value := .null
  kept : Value := .null
  dropped : Value := .null

/-- One page of the answer to a query, with the page it is. -/
structure QueryAnswer where
  page : Page
  items : List Value

namespace Query

def run [CharacterNames] (q : Query) (items : Value) : Except Failure QueryAnswer := do
  let filter ← q.criteria.filter
  let matched ← Filter.apply filter.toValue items
  let sorted ← SortOrder.apply (SortOrder.ofValue q.sort).toValue (.list matched)
  let page ← Page.ofValues q.pageNumber q.pageSize
  let projection ← Projection.ofLists q.kept q.dropped
  let out ← Projection.apply projection.toValue (.list (page.cut sorted))
  pure ⟨page, out⟩

end Query

end ShapeContract
