import ShapeContract.Proofs.Overrides.Neutral
import ShapeContract.Proofs.Overrides.Optional
import ShapeContract.Proofs.Overrides.Required
import ShapeContract.Proofs.Rule.Gathered

/-!
# Selection by path lists

Overrides that append nothing take some leaves of a tree away and change what is said of being
required. `Rule.selected` does so on the tree itself, where a parent that keeps no child goes too;
attaching the leaves that are left to a new root makes that tree, bare between. So flattening the
adapted tree lists exactly the selected leaves, in the order of the tree: `Overrides.flatten_apply`.
-/

set_option autoImplicit false

namespace ShapeContract

namespace Rule

/-! ## Rebuilt trees -/

/-- Rebuilding goes child by child. -/
theorem rebuiltFields_eq (cs : Fields Rule) : rebuiltFields cs = cs.mapValues rebuilt := by
  induction cs with
  | nil => rfl
  | cons e rest ih =>
    obtain ⟨name, c⟩ := e
    rw [rebuiltFields, ih, Fields.mapValues_cons]

theorem rebuiltFields_ne_nil {cs : Fields Rule} (some : cs ≠ []) : rebuiltFields cs ≠ [] := by
  rw [rebuiltFields_eq]
  exact mt List.map_eq_nil_iff.1 some

mutual

/-- Rebuilding keeps the leaves. -/
theorem leavesOf_rebuilt : ∀ cs : List (String × Rule), leavesOf (rebuiltFields cs) = leavesOf cs
  | [] => rfl
  | (name, c) :: rest => by
    rw [rebuiltFields, leavesOf, leavesOf, leavesUnder_rebuilt c, leavesOf_rebuilt rest]

/-- Rebuilding keeps every leaf: it touches only the facets of inner objects. -/
theorem leavesUnder_rebuilt : ∀ c : Rule, leavesUnder c.rebuilt = leavesUnder c
  | ⟨f, items, none⟩ => rfl
  | ⟨f, items, some cs⟩ => by
    unfold rebuilt
    split
    next inner =>
      have same := leavesOf_rebuilt cs
      rw [leavesUnder, leavesUnder, if_pos inner, if_pos ⟨rfl, rebuiltFields_ne_nil inner.2⟩, same]
    next => rfl

end

mutual

theorem fieldsWellNamed_rebuilt : ∀ cs : List (String × Rule), FieldsWellNamed cs →
    FieldsWellNamed (rebuiltFields cs)
  | [], _ => trivial
  | (name, c) :: rest, named => by
    refine ⟨named.1, ?_, wellNamed_rebuilt c named.2.2.1, fieldsWellNamed_rebuilt rest named.2.2.2⟩
    rw [rebuiltFields_eq, Fields.keys_mapValues]
    exact named.2.1

/-- It keeps the names apart. -/
theorem wellNamed_rebuilt : ∀ c : Rule, c.WellNamed → c.rebuilt.WellNamed
  | ⟨f, items, none⟩, named => named
  | ⟨f, items, some cs⟩, named => by
    unfold rebuilt
    split
    · exact fieldsWellNamed_rebuilt cs named
    · exact named

end

/-! ## Selected leaves -/

mutual

/-- Some leaves of some children, each as it is chosen at its place; a parent without any is left
out. -/
def selectedFields (choose : List String → Rule → Option Rule) :
    List (String × Rule) → List (String × Rule)
  | [] => []
  | (name, c) :: rest =>
    ((selected (fun names => choose (name :: names)) c).toList.map fun d => (name, d)) ++
      selectedFields choose rest

def selected (choose : List String → Rule → Option Rule) : Rule → Option Rule
  | ⟨f, items, none⟩ => choose [] ⟨f, items, none⟩
  | ⟨f, items, some cs⟩ =>
    if f.type = .object ∧ cs ≠ [] then
      if selectedFields choose cs = [] then none
      else some ⟨f, items, some (selectedFields choose cs)⟩
    else choose [] ⟨f, items, some cs⟩

end

/-- A leaf as it is chosen at its place, if it is. -/
def chosen (choose : List String → Rule → Option Rule) (e : List String × Rule) :
    Option (List String × Rule) :=
  (choose e.1 e.2).map fun r => (e.1, r)

/-- What is chosen in the place of a leaf is a leaf, and its names are as good. -/
structure Choosing (choose : List String → Rule → Option Rule) : Prop where
  atomic : ∀ names r s, choose names r = some s → ¬ r.Inner → ¬ s.Inner
  named : ∀ names r s, choose names r = some s → r.WellNamed → s.WellNamed

/-- A choice among paths is also a choice among the paths below a name. -/
theorem Choosing.under {choose : List String → Rule → Option Rule} (choosing : Choosing choose)
    (name : String) : Choosing fun names => choose (name :: names) :=
  ⟨fun _ => choosing.atomic _, fun _ => choosing.named _⟩

/-- Choosing among leaves with a common first name is choosing below it. -/
theorem filterMap_chosen_under (choose : List String → Rule → Option Rule) (name : String)
    (leaves : List (List String × Rule)) :
    (leaves.map fun e => (name :: e.1, e.2)).filterMap (chosen choose) =
      (leaves.filterMap (chosen fun names => choose (name :: names))).map
        fun e => (name :: e.1, e.2) := by
  rw [List.filterMap_map, List.map_filterMap]
  refine List.filterMap_congr fun e _ => ?_
  simp [chosen, Function.comp_def]

theorem leavesOf_append (cs ds : Fields Rule) : leavesOf (cs ++ ds) = leavesOf cs ++ leavesOf ds := by
  induction cs with
  | nil => rfl
  | cons e rest ih =>
    obtain ⟨name, c⟩ := e
    rw [List.cons_append, leavesOf, leavesOf, ih, List.append_assoc]

mutual

/-- **The leaves that are left** are the chosen ones, in their order. -/
theorem leavesOf_selected : ∀ (cs : List (String × Rule)) (choose : List String → Rule → Option Rule),
    Choosing choose →
    leavesOf (selectedFields choose cs) = (leavesOf cs).filterMap (chosen choose)
  | [], _, _ => rfl
  | (name, c) :: rest, choose, choosing => by
    have child := leavesUnder_selected c _ (choosing.under name)
    rw [selectedFields, leavesOf_append, leavesOf_selected rest choose choosing, leavesOf,
      List.filterMap_append, filterMap_chosen_under, ← child]
    cases selected (fun names => choose (name :: names)) c with
    | none => rfl
    | some d => simp [leavesOf]

/-- The leaves of a selected tree are the selected leaves, in order. -/
theorem leavesUnder_selected : ∀ (c : Rule) (choose : List String → Rule → Option Rule),
    Choosing choose →
    (selected choose c).toList.flatMap leavesUnder = (leavesUnder c).filterMap (chosen choose)
  | ⟨f, items, none⟩, choose, choosing => by
    have leaf : ¬ Inner ⟨f, items, none⟩ := fun inner => inner.2 rfl
    rw [selected, leavesUnder]
    cases same : choose [] ⟨f, items, none⟩ with
    | none => simp [chosen, same]
    | some s => simp [chosen, same, leavesUnder_of_not_inner (choosing.atomic _ _ _ same leaf)]
  | ⟨f, items, some cs⟩, choose, choosing => by
    rw [selected, leavesUnder]
    split
    next inner =>
      rw [← leavesOf_selected cs choose choosing]
      split
      next none => rw [none]; rfl
      next some => simp [leavesUnder, inner.1, some]
    next outer =>
      have leaf : ¬ Inner ⟨f, items, some cs⟩ := outer
      cases same : choose [] ⟨f, items, some cs⟩ with
      | none => simp [chosen, same]
      | some s => simp [chosen, same, leavesUnder_of_not_inner (choosing.atomic _ _ _ same leaf)]

end

/-- Selection drops fields and moves none. -/
theorem keys_selectedFields (choose : List String → Rule → Option Rule) (cs : Fields Rule) :
    (Fields.keys (selectedFields choose cs)).Sublist cs.keys := by
  induction cs with
  | nil => exact .refl _
  | cons e rest ih =>
    obtain ⟨name, c⟩ := e
    rw [selectedFields]
    cases selected (fun names => choose (name :: names)) c with
    | none => exact ih.cons _
    | some d => exact ih.cons_cons _

mutual

theorem fieldsWellNamed_selected : ∀ (cs : List (String × Rule))
    (choose : List String → Rule → Option Rule), Choosing choose → FieldsWellNamed cs →
    FieldsWellNamed (selectedFields choose cs)
  | [], _, _, _ => trivial
  | (name, c) :: rest, choose, choosing, named => by
    have others := fieldsWellNamed_selected rest choose choosing named.2.2.2
    have child := wellNamed_selected c _ (choosing.under name) named.2.2.1
    rw [selectedFields]
    cases left : selected (fun names => choose (name :: names)) c with
    | none => exact others
    | some d =>
      exact ⟨named.1, fun later => named.2.1 ((keys_selectedFields choose rest).subset later),
        child d left, others⟩

/-- A selected tree keeps its names apart. -/
theorem wellNamed_selected : ∀ (c : Rule) (choose : List String → Rule → Option Rule),
    Choosing choose → c.WellNamed → ∀ d, selected choose c = some d → d.WellNamed
  | ⟨f, items, none⟩, choose, choosing, named, d, left => choosing.named _ _ d left named
  | ⟨f, items, some cs⟩, choose, choosing, named, d, left => by
    unfold selected at left
    split at left
    · split at left
      · cases left
      · cases left
        exact fieldsWellNamed_selected cs choose choosing named
    · exact choosing.named _ _ d left named

end

end Rule

namespace Overrides

open Rule (leavesOf selectedFields Choosing)

variable {o : Overrides}

/-- What the path lists make of a leaf at a place. -/
def choose (o : Overrides) (names : List String) (r : Rule) : Option Rule :=
  if o.keeps (dotted "" names) then some (o.adjust (dotted "" names) r) else none

/-- Adjusting a leaf changes its flag only. -/
theorem wellNamed_adjust {path : String} {r : Rule} (named : r.WellNamed) :
    (o.adjust path r).WellNamed := by
  have flagged (b : Bool) : (r.withRequired b).WellNamed := by
    obtain ⟨f, items, children⟩ := r
    cases children <;> exact named
  unfold adjust
  split
  · exact flagged true
  · split
    · exact flagged false
    · exact named

/-- The choice overrides make is one of leaves: it maps no leaf to an inner object. -/
theorem choosing_choose (o : Overrides) : Choosing o.choose := by
  constructor <;> intro names r s same <;> unfold choose at same <;> split at same <;> cases same
  · exact not_inner_adjust
  · exact wellNamed_adjust

/-- The selected leaves of a tree are the leaves of the selected tree. -/
theorem selectLeaves_flatten {tree : Rule} (named : tree.WellNamed) :
    o.selectLeaves (tree.flatten "") =
      (leavesOf (selectedFields o.choose tree.kids)).map fun e => (dotted "" e.1, e.2) := by
  rw [Rule.flatten_eq named, Rule.leavesOf_selected _ _ o.choosing_choose, List.map_filterMap]
  unfold selectLeaves
  rw [List.filter_map, List.map_map, ← List.filterMap_eq_map, ← List.filterMap_eq_filter,
    List.filterMap_filterMap]
  refine List.filterMap_congr fun e _ => ?_
  by_cases stays : o.keeps (dotted "" e.1) <;> simp [Rule.chosen, choose, stays]

/-- Overrides that append nothing make the tree that is left, rebuilt. -/
theorem apply_selected {tree : Rule} (named : tree.WellNamed) (nothing : o.appended = [])
    (checked : o.checkAll = .ok ()) :
    o.apply tree = .ok ⟨Rule.empty.facets, none,
      some (Rule.rebuiltFields (selectedFields o.choose tree.kids))⟩ := by
  have left : Rule.FieldsWellNamed (selectedFields o.choose tree.kids) :=
    Rule.fieldsWellNamed_selected _ _ o.choosing_choose (Rule.fieldsWellNamed_kids named)
  have attached := Rule.attachEach_leavesOf Rule.empty.facets none _ [] left (by simp [Fields.keys])
  have built := build_dotted _ (Rule.leavesOf_deep _) (Rule.leavesOf_segments _ left)
  refine apply_ok_iff.2 ⟨_, effective_ok_iff.2 ⟨checked, [], by rw [nothing]; rfl, rfl⟩, ?_⟩
  change build (o.selectLeaves (tree.flatten "")) = _
  rw [selectLeaves_flatten named, built]
  exact attached

/-- **Selection is exact and keeps the order.** Overrides that append nothing adapt every tree, and
its leaves, in order, are those of the tree at paths that are included, if any are, and not excluded;
of a leaf only what is said of being required changes, `required` winning over `optional`. -/
theorem flatten_apply {tree : Rule} (named : tree.WellNamed) (nothing : o.appended = [])
    (checked : o.checkAll = .ok ()) :
    ∃ adapted, o.apply tree = .ok adapted ∧
      adapted.flatten "" = ((tree.flatten "").filter fun e =>
          (o.included.isEmpty || lists o.included e.1) && !lists o.excluded e.1).map fun e =>
        (e.1, if lists o.required e.1 then e.2.withRequired true
          else if lists o.optional e.1 then e.2.withRequired false else e.2) := by
  have left : Rule.FieldsWellNamed (selectedFields o.choose tree.kids) :=
    Rule.fieldsWellNamed_selected _ _ o.choosing_choose (Rule.fieldsWellNamed_kids named)
  have named' : Rule.WellNamed ⟨Rule.empty.facets, none,
      some (Rule.rebuiltFields (selectedFields o.choose tree.kids))⟩ :=
    Rule.fieldsWellNamed_rebuilt _ left
  refine ⟨_, apply_selected named nothing checked, ?_⟩
  rw [Rule.flatten_eq named']
  change (leavesOf (Rule.rebuiltFields _)).map _ = o.selectLeaves (tree.flatten "")
  rw [Rule.leavesOf_rebuilt, selectLeaves_flatten named]

/-- A document with an embedded one, an empty one and a text. -/
def account : Rule :=
  ⟨Rule.empty.facets, none, some
    [("address", ⟨{ type := .object }, none, some
        [("street", Rule.bare .string), ("zip", Rule.bare .string)]⟩),
      ("meta", ⟨{ type := .object }, none, some []⟩), ("name", Rule.bare .string)]⟩

theorem wellNamed_account : account.WellNamed := by
  have address : IsSegment "address" := by decide
  have street : IsSegment "street" := by decide
  have zip : IsSegment "zip" := by decide
  have empty : IsSegment "meta" := by decide
  have name : IsSegment "name" := by decide
  simp [account, Rule.WellNamed, Rule.FieldsWellNamed, Rule.bare, Fields.keys, address, street, zip,
    empty, name]

/-- Overrides that drop a name, and change what is said of two other leaves being required. -/
def trimmed : Overrides where
  included := [.str "meta", .str "address.zip", .str "name"]
  excluded := [.str "name"]
  optional := [.str "address.zip", .str "meta"]
  required := [.str "meta"]

theorem flatten_apply_account :
    account.WellNamed ∧ trimmed.appended = [] ∧ trimmed.checkAll = .ok () ∧
      ∃ adapted, trimmed.apply account = .ok adapted ∧
        adapted.flatten "" =
          [("address.zip", (Rule.bare .string).withRequired false),
            ("meta", Rule.withRequired ⟨{ type := .object }, none, some []⟩ true)] := by
  have checked : trimmed.checkAll = .ok () := by decide
  obtain ⟨adapted, made, leaves⟩ := flatten_apply wellNamed_account rfl checked
  exact ⟨wellNamed_account, rfl, checked, adapted, made, leaves.trans (by rfl)⟩

end Overrides

end ShapeContract
