import ShapeContract.Proofs.Overrides.Optional
import ShapeContract.Proofs.Rule.Placed

/-!
# Objects that say nothing of being required

An object that holds other fields may say that it is not required, or say nothing. Adapting a tree
makes such objects again and so forgets the difference, except inside the elements of arrays, which
stay as they are; no document tells it: `Overrides.apply_unflagged`, `Wire.ofTree_eq_of_elementwise`.
-/

set_option autoImplicit false

namespace ShapeContract

namespace Rule

/-! ## Trees without the flag -/

/-- A flag that says no more than its absence. -/
def unflag : Option Value → Option Value
  | some (.bool false) => none
  | flag => flag

mutual

/-- The rule with objects that hold others saying nothing instead of not being required; with
`elements` also inside the elements of arrays. -/
def unflagged (elements : Bool) : Rule → Rule
  | ⟨f, items, none⟩ => ⟨f, unflaggedItems elements items, none⟩
  | ⟨f, items, some cs⟩ =>
    if f.type = .object ∧ cs ≠ [] then
      ⟨{ f with required := unflag f.required }, unflaggedItems elements items,
        some (unflaggedFields elements cs)⟩
    else ⟨f, unflaggedItems elements items, some cs⟩

def unflaggedItems : Bool → Option Rule → Option Rule
  | false, items => items
  | true, none => none
  | true, some r => some (unflagged true r)

def unflaggedFields (elements : Bool) : List (String × Rule) → List (String × Rule)
  | [] => []
  | (name, c) :: rest => (name, unflagged elements c) :: unflaggedFields elements rest

end

mutual

/-- The same inside the elements of arrays alone, where `elements` says so. -/
def elementwise (elements : Bool) : Rule → Rule
  | ⟨f, items, none⟩ => ⟨f, unflaggedItems elements items, none⟩
  | ⟨f, items, some cs⟩ => ⟨f, unflaggedItems elements items, some (elementwiseFields elements cs)⟩

def elementwiseFields (elements : Bool) : List (String × Rule) → List (String × Rule)
  | [] => []
  | (name, c) :: rest => (name, elementwise elements c) :: elementwiseFields elements rest

end

variable {e : Bool} {r s : Rule} {cs ds : Fields Rule}

theorem unflaggedItems_false (items : Option Rule) : unflaggedItems false items = items := by
  cases items <;> rfl

theorem unflaggedFields_eq (e : Bool) (cs : Fields Rule) :
    unflaggedFields e cs = cs.mapValues (unflagged e) := by
  induction cs with
  | nil => rfl
  | cons head rest ih =>
    obtain ⟨name, c⟩ := head
    rw [unflaggedFields, ih, Fields.mapValues_cons]

theorem elementwiseFields_eq (e : Bool) (cs : Fields Rule) :
    elementwiseFields e cs = cs.mapValues (elementwise e) := by
  induction cs with
  | nil => rfl
  | cons head rest ih =>
    obtain ⟨name, c⟩ := head
    rw [elementwiseFields, ih, Fields.mapValues_cons]

/-- Element rules lose the flag inside, everything else stays. -/
theorem elementwise_eq (e : Bool) (r : Rule) : elementwise e r =
    ⟨r.facets, unflaggedItems e r.items, r.children.map (Fields.mapValues (elementwise e))⟩ := by
  obtain ⟨f, items, children⟩ := r
  cases children with
  | none => rfl
  | some cs => rw [elementwise, elementwiseFields_eq, Option.map_some]

/-- An inner object loses its flag. -/
theorem unflagged_of_inner (inner : r.Inner) : unflagged e r =
    ⟨{ r.facets with required := unflag r.facets.required }, unflaggedItems e r.items,
      some (Fields.mapValues (unflagged e) r.kids)⟩ := by
  obtain ⟨f, items, children⟩ := r
  cases children with
  | none => exact absurd rfl inner.2
  | some cs =>
    have here : f.type = .object ∧ cs ≠ [] := inner
    rw [unflagged, if_pos here, unflaggedFields_eq]
    rfl

/-- A leaf keeps its flag and its children. -/
theorem unflagged_of_not_inner (leaf : ¬ r.Inner) :
    unflagged e r = ⟨r.facets, unflaggedItems e r.items, r.children⟩ := by
  obtain ⟨f, items, children⟩ := r
  cases children with
  | none => rfl
  | some cs => exact if_neg leaf

/-- Without looking into elements nothing is left to do. -/
theorem elementwise_false (r : Rule) : elementwise false r = r := by
  induction r using Rule.induct with
  | node f items children element kids =>
    rw [elementwise_eq, unflaggedItems_false]
    cases children with
    | none => rfl
    | some cs =>
      have same : Fields.mapValues (elementwise false) cs = cs := by
        refine (List.map_congr_left fun c inside => ?_).trans (List.map_id cs)
        rw [kids c inside]
        rfl
      rw [Option.map_some, same]

/-- Of leaves the flag goes in their elements alone. -/
theorem elementwise_eq_of_unflagged (leaf : ¬ r.Inner) (leaf' : ¬ s.Inner)
    (same : unflagged e r = unflagged e s) : elementwise e r = elementwise e s := by
  rw [unflagged_of_not_inner leaf, unflagged_of_not_inner leaf', Rule.mk.injEq] at same
  rw [elementwise_eq, elementwise_eq, same.1, same.2.1, same.2.2]

/-! ## Leaves -/

mutual

/-- Losing flags changes no path of a leaf. -/
theorem leavesOf_unflagged (e : Bool) : ∀ cs : List (String × Rule),
    leavesOf (Fields.mapValues (unflagged e) cs) =
      (leavesOf cs).map fun leaf => (leaf.1, unflagged e leaf.2)
  | [] => rfl
  | (name, c) :: rest => by
    rw [Fields.mapValues_cons, leavesOf, leavesOf, leavesUnder_unflagged e c,
      leavesOf_unflagged e rest, List.map_append, List.map_map, List.map_map]
    rfl

/-- The same below one child. -/
theorem leavesUnder_unflagged (e : Bool) : ∀ c : Rule,
    leavesUnder (unflagged e c) = (leavesUnder c).map fun leaf => (leaf.1, unflagged e leaf.2)
  | ⟨f, items, none⟩ => rfl
  | ⟨f, items, some cs⟩ => by
    rw [unflagged, leavesUnder]
    split
    next inner =>
      have some' : unflaggedFields e cs ≠ [] := by
        rw [unflaggedFields_eq]
        exact mt List.map_eq_nil_iff.1 inner.2
      rw [leavesUnder, if_pos ⟨inner.1, some'⟩, unflaggedFields_eq, leavesOf_unflagged e cs]
    next leaf =>
      rw [leavesUnder, if_neg leaf, List.map_singleton, unflagged, if_neg leaf]

end

/-- The leaves by path, after flags are lost. -/
theorem flatten_unflagged (e : Bool) (r : Rule) :
    (r.flatten "").mapValues (unflagged e) =
      Fields.ofList ((leavesOf (r.kids.mapValues (unflagged e))).map
        fun leaf => (dotted "" leaf.1, leaf.2)) := by
  rw [flatten, flattenFrom_eq, ← Fields.ofList_mapValues, leavesOf_unflagged, Fields.mapValues,
    List.map_map, List.map_map]
  rfl

/-- No leaf is an inner object. -/
theorem not_inner_flatten {leaf : String × Rule} (inside : leaf ∈ r.flatten "") :
    ¬ leaf.2.Inner := by
  rw [flatten, flattenFrom_eq] at inside
  obtain ⟨e, among, rfl⟩ := List.mem_map.1 (Fields.mem_ofList inside)
  exact not_inner_leavesOf _ e among

/-- Leaves in step that are the same without the flag are the same but for their elements. -/
theorem elementwise_leaves (leaf : ∀ c ∈ cs, ¬ c.2.Inner) (leaf' : ∀ d ∈ ds, ¬ d.2.Inner)
    (same : cs.mapValues (unflagged e) = ds.mapValues (unflagged e)) :
    cs.mapValues (elementwise e) = ds.mapValues (elementwise e) := by
  have related : List.Forall₂ (fun c d => c.1 = d.1 ∧ unflagged e c.2 = unflagged e d.2) cs ds := by
    rw [Fields.mapValues, Fields.mapValues, ← List.forall₂_eq_eq_eq, List.forall₂_map_left_iff,
      List.forall₂_map_right_iff] at same
    exact same.imp fun c d both => Prod.mk.inj both
  induction related with
  | nil => rfl
  | @cons c d cs ds both _ ih =>
    obtain ⟨here, later⟩ := List.forall_mem_cons.1 leaf
    obtain ⟨here', later'⟩ := List.forall_mem_cons.1 leaf'
    have rest : Fields.mapValues (unflagged e) cs = Fields.mapValues (unflagged e) ds :=
      (List.cons.inj same).2
    have first : (c.1, elementwise e c.2) = (d.1, elementwise e d.2) := by
      rw [both.1, elementwise_eq_of_unflagged here here' both.2]
    exact congrArg₂ List.cons first (ih later later' rest)

/-- Trees that agree without flags have leaves that agree but for their elements. -/
theorem flatten_elementwise (same : r.kids.mapValues (unflagged e) = s.kids.mapValues (unflagged e)) :
    (r.flatten "").mapValues (elementwise e) = (s.flatten "").mapValues (elementwise e) := by
  refine elementwise_leaves (fun _ => not_inner_flatten) (fun _ => not_inner_flatten) ?_
  rw [flatten_unflagged, flatten_unflagged, same]

/-! ## Attaching -/

/-- The child of a tree without flags in elements is the child without them. -/
theorem child?_elementwise (r : Rule) (name : String) :
    (elementwise e r).child? name = (r.child? name).map (elementwise e) := by
  rw [elementwise_eq]
  obtain ⟨f, items, children⟩ := r
  cases children with
  | none => rfl
  | some cs => exact Fields.get?_mapValues (elementwise e) cs name

/-- Putting a child and losing flags in elements can change places. -/
theorem elementwise_putChild (root : Rule) (name : String) (c : Rule) :
    elementwise e (root.putChild name c) = (elementwise e root).putChild name (elementwise e c) := by
  obtain ⟨f, items, children⟩ := root
  simp only [putChild, elementwise_eq, Option.map_some, ← Fields.put_mapValues, kids]
  cases children <;> rfl

theorem elementwise_empty (e : Bool) : elementwise e empty = empty := by
  cases e <;> rfl

/-- The same for attaching, by induction on the path. -/
theorem elementwise_attachAt (rule : Rule) (names : List String) : ∀ (root : Rule) (first : String),
    elementwise e (attachAt root first names rule) =
      attachAt (elementwise e root) first names (elementwise e rule) := by
  induction names with
  | nil => exact fun root first => elementwise_putChild root first rule
  | cons next rest ih =>
    intro root first
    have below : (((elementwise e root).child? first).getD empty) =
        elementwise e ((root.child? first).getD empty) := by
      rw [child?_elementwise]
      cases root.child? first with
      | none => exact (elementwise_empty e).symm
      | some c => rfl
    rw [attachAt, attachAt, elementwise_putChild, ih, below]

/-- The same for a path as a text. -/
theorem elementwise_attach (root : Rule) (path : String) (rule : Rule) :
    elementwise e (root.attach path rule) = (elementwise e root).attach path (elementwise e rule) := by
  unfold attach
  cases segments path with
  | nil => rfl
  | cons first rest => exact elementwise_attachAt rule rest root first

end Rule

/-! ## Adapted trees -/

namespace Overrides

open Rule (unflagged elementwise)

variable {e : Bool} {o : Overrides}

/-- The same for a tree that is built from leaves. -/
theorem elementwise_build (leaves : Fields Rule) :
    elementwise e (build leaves) = build (leaves.mapValues (elementwise e)) := by
  have all : ∀ root : Rule, elementwise e (leaves.foldl (fun root l => root.attach l.1 l.2) root) =
      (leaves.mapValues (elementwise e)).foldl (fun root l => root.attach l.1 l.2)
        (elementwise e root) := by
    induction leaves with
    | nil => exact fun _ => rfl
    | cons leaf rest ih =>
      obtain ⟨path, r⟩ := leaf
      intro root
      rw [List.foldl_cons, Fields.mapValues_cons, List.foldl_cons, ih, Rule.elementwise_attach]
  unfold build
  rw [all, Rule.elementwise_empty]

/-- Adjusting a leaf does not look at its elements. -/
theorem elementwise_adjust (path : String) (r : Rule) :
    elementwise e (o.adjust path r) = o.adjust path (elementwise e r) := by
  have flagged (b : Bool) :
      elementwise e (r.withRequired b) = (elementwise e r).withRequired b := by
    rw [Rule.elementwise_eq, Rule.elementwise_eq]
    rfl
  unfold adjust
  split
  next => exact flagged true
  next =>
    split
    next => exact flagged false
    next => rfl

/-- Selecting leaves does not look at their elements. -/
theorem selectLeaves_elementwise (leaves : Fields Rule) :
    (o.selectLeaves leaves).mapValues (elementwise e) =
      o.selectLeaves (leaves.mapValues (elementwise e)) := by
  unfold selectLeaves Fields.mapValues
  rw [List.filter_map, List.map_map, List.map_map]
  refine List.map_congr_left fun leaf _ => ?_
  exact congrArg (Prod.mk leaf.1) (elementwise_adjust leaf.1 leaf.2)

/-- Trees whose fields are the same without the flag are adapted to the same but for elements. -/
theorem apply_unflagged {t u : Rule} (same : t.kids.mapValues (unflagged e) = u.kids.mapValues (unflagged e)) :
    Wire.SameOutcome (fun a b => elementwise e a = elementwise e b) (o.apply t) (o.apply u) := by
  have adapted (t : Rule) : o.apply t = (o.checkAll >>= fun _ => appendedRules o.appended).map
      fun rules => build ((o.selectLeaves (t.flatten "")).putAll rules) := by
    unfold apply effective
    cases o.checkAll with
    | error e => rfl
    | ok _ => cases appendedRules o.appended <;> rfl
  rw [adapted t, adapted u]
  -- Of a tree only the leaves stay, and the flag is one of objects that hold others.
  refine (Wire.SameOutcome.refl (fun _ => rfl) _).map fun rules rules' (equal : rules = rules') => ?_
  rw [elementwise_build, elementwise_build, ← Fields.putAll_mapValues, ← Fields.putAll_mapValues,
    selectLeaves_elementwise, selectLeaves_elementwise, Rule.flatten_elementwise same, equal]

end Overrides

/-! ## Documents -/

namespace Wire

open Rule (unflagged elementwise unflaggedItems)

/-- Whether a rule counts as required does not depend on the flags that are lost. -/
theorem isRequired_unflagged (e : Bool) (r : Rule) : (unflagged e r).isRequired = r.isRequired := by
  have flag (b : Option Value) : (Rule.unflag b).any Value.truthy = b.any Value.truthy := by
    unfold Rule.unflag
    split <;> rfl
  by_cases inner : r.Inner
  · rw [Rule.unflagged_of_inner inner]
    exact flag r.facets.required
  · rw [Rule.unflagged_of_not_inner inner]
    rfl

theorem isRequired_elementwise (e : Bool) (r : Rule) :
    (elementwise e r).isRequired = r.isRequired := by
  rw [Rule.elementwise_eq]
  rfl

/-- A document does not tell whether its own field is required; of what is below it shows the
documents and the required names. -/
theorem ofRule_congr {a : Bool} (f : Facets) (b : Option Value) {items items' : Option Rule}
    {children children' : Option (List (String × Rule))}
    (element : ofItems a items' = ofItems a items)
    (fields : ofChildren a children' = ofChildren a children)
    (names : requiredNames (children'.getD []) = requiredNames (children.getD [])) :
    ofRule a ⟨{ f with required := b }, items', children'⟩ = ofRule a ⟨f, items, children⟩ := by
  simp only [ofRule, element, fields, names]
  rfl

variable {a : Bool}

/-- Fields with the same documents and flags as other fields. -/
theorem ofChildren_mapValues {n : Rule → Rule} {cs : Fields Rule}
    (documents : ∀ c ∈ cs, ofRule a (n c.2) = ofRule a c.2)
    (flags : ∀ c : Rule, (n c).isRequired = c.isRequired) :
    ofChildren a (some (cs.mapValues n)) = ofChildren a (some cs) ∧
      requiredNames (cs.mapValues n) = requiredNames cs := by
  constructor
  · rw [ofChildren_eq, ofChildren_eq, Option.getD_some, Option.getD_some, Fields.mapValues,
      Fields.mapValues, Fields.mapValues, List.map_map]
    exact List.map_congr_left fun c inside => congrArg (Prod.mk c.1) (documents c inside)
  · rw [requiredNames_eq, requiredNames_eq, ownRequired, ownRequired, Fields.mapValues,
      List.filter_map, List.map_map]
    simp only [Function.comp_def, flags, List.map_map]

/-- The document of elements does not show the flags of inner objects. -/
theorem ofItems_unflagged (e : Bool) {items : Option Rule}
    (element : ∀ r, items = some r → ∀ e, ofRule a (unflagged e r) = ofRule a r) :
    ofItems a (unflaggedItems e items) = ofItems a items := by
  cases e with
  | false => rw [Rule.unflaggedItems_false]
  | true =>
    cases items with
    | none => rfl
    | some r => exact element r rfl true

/-- The document of a rule does not show the flags of inner objects. -/
theorem ofRule_unflagged (a e : Bool) (r : Rule) : ofRule a (unflagged e r) = ofRule a r := by
  induction r using Rule.induct generalizing e with
  | node f items children element kids =>
    have items' := ofItems_unflagged e element
    by_cases inner : Rule.Inner ⟨f, items, children⟩
    · rw [Rule.unflagged_of_inner inner]
      obtain ⟨documents, names⟩ :=
        ofChildren_mapValues (fun c inside => kids c inside e) (isRequired_unflagged e)
      cases children with
      | none => exact absurd rfl inner.2
      | some cs => exact ofRule_congr f _ items' documents names
    · rw [Rule.unflagged_of_not_inner inner]
      exact ofRule_congr f _ items' rfl rfl

/-- The document of a rule does not show the flags inside its elements. -/
theorem ofRule_elementwise (a e : Bool) (r : Rule) : ofRule a (elementwise e r) = ofRule a r := by
  induction r using Rule.induct with
  | node f items children element kids =>
    have items' : ofItems a (unflaggedItems e items) = ofItems a items :=
      ofItems_unflagged e fun r _ e => ofRule_unflagged a e r
    rw [Rule.elementwise_eq]
    cases children with
    | none => exact ofRule_congr f _ items' rfl rfl
    | some cs =>
      obtain ⟨documents, names⟩ := ofChildren_mapValues kids (isRequired_elementwise e)
      exact ofRule_congr f _ items' documents names

/-- Trees that are the same but for elements have the same document. -/
theorem ofTree_eq_of_elementwise (a : Bool) {e : Bool} {t u : Rule}
    (same : elementwise e t = elementwise e u) : ofTree a t = ofTree a u := by
  have kids (t : Rule) : (elementwise e t).kids = t.kids.mapValues (elementwise e) := by
    rw [Rule.elementwise_eq]
    obtain ⟨f, items, children⟩ := t
    cases children <;> rfl
  have document (t : Rule) : ofTree a (elementwise e t) = ofTree a t := by
    have each : ∀ c ∈ t.kids, ofRule a (elementwise e c.2) = ofRule a c.2 :=
      fun c _ => ofRule_elementwise a e c.2
    obtain ⟨documents, names⟩ := ofChildren_mapValues each (isRequired_elementwise e)
    rw [ofTree, ofTree, kids]
    exact ofRule_congr Rule.empty.facets _ rfl documents names
  rw [← document t, ← document u, same]

end Wire

end ShapeContract
