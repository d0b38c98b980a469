import ShapeContract.Overrides.Apply
import ShapeContract.Wire.Emission

/-!
# What a client sees of a rule tree

Only objects have properties in a wire document, so of other nodes the children do not count.
`Rule.visible` cuts them off. Trees that look alike have one document, and one again after overrides
have been applied to them: `Overrides.document_alike`.
-/

set_option autoImplicit false

namespace ShapeContract

namespace Rule

mutual

/-- A rule without the children of nodes that are no objects. -/
def visible : Rule → Rule
  | ⟨f, items, none⟩ => ⟨f, items, none⟩
  | ⟨f, items, some cs⟩ =>
    if f.type = .object then ⟨f, items, some (visibleFields cs)⟩ else ⟨f, items, none⟩

def visibleFields : List (String × Rule) → List (String × Rule)
  | [] => []
  | (name, c) :: rest => (name, visible c) :: visibleFields rest

end

theorem visibleFields_eq (cs : List (String × Rule)) :
    visibleFields cs = Fields.mapValues visible cs := by
  induction cs with
  | nil => rfl
  | cons e rest ih => exact congrArg ((e.1, visible e.2) :: ·) ih

@[simp] theorem facets_visible (r : Rule) : r.visible.facets = r.facets := by
  obtain ⟨f, items, children⟩ := r
  cases children with
  | none => rfl
  | some cs =>
    unfold visible
    split <;> rfl

@[simp] theorem items_visible (r : Rule) : r.visible.items = r.items := by
  obtain ⟨f, items, children⟩ := r
  cases children with
  | none => rfl
  | some cs =>
    unfold visible
    split <;> rfl

/-- Of an object the children are seen, as far as they are seen themselves. -/
theorem visible_of_object {r : Rule} (object : r.type = .object) :
    r.visible = ⟨r.facets, r.items, r.children.map visibleFields⟩ := by
  obtain ⟨f, items, children⟩ := r
  cases children with
  | none => rfl
  | some cs => exact if_pos object

/-- Of other rules no children are seen. -/
theorem visible_of_not_object {r : Rule} (other : r.type ≠ .object) :
    r.visible = ⟨r.facets, r.items, none⟩ := by
  obtain ⟨f, items, children⟩ := r
  cases children with
  | none => rfl
  | some cs => exact if_neg other

/-- Two rules that look alike. -/
def Alike (r s : Rule) : Prop := r.visible = s.visible

/-- Rules that look alike have the same facets. -/
theorem Alike.facets {r s : Rule} (alike : Alike r s) : r.facets = s.facets := by
  have same := congrArg Rule.facets alike
  rwa [facets_visible, facets_visible] at same

/-- Rules that look alike have the same element rule. -/
theorem Alike.items {r s : Rule} (alike : Alike r s) : r.items = s.items := by
  have same := congrArg Rule.items alike
  rwa [items_visible, items_visible] at same

/-- Children that look alike, name by name. -/
def KidsAlike (r s : Rule) : Prop :=
  Fields.mapValues visible r.kids = Fields.mapValues visible s.kids

/-- Objects that look alike have children that look alike. -/
theorem kidsAlike_of_object {r s : Rule} (alike : Alike r s) (object : r.type = .object) :
    KidsAlike r s := by
  have type : s.type = .object := (congrArg Facets.type alike.facets).symm.trans object
  have whole := alike
  unfold Alike at whole
  rw [visible_of_object object, visible_of_object type] at whole
  have children : r.children.map visibleFields = s.children.map visibleFields :=
    congrArg Rule.children whole
  have kids : ∀ t : Rule, Fields.mapValues visible t.kids = (t.children.map visibleFields).getD [] := by
    intro t
    unfold kids
    cases t.children with
    | none => rfl
    | some cs => exact (visibleFields_eq cs).symm
  unfold KidsAlike
  rw [kids r, kids s, children]

/-- Children that look alike look alike one by one. -/
theorem KidsAlike.child? {r s : Rule} (alike : KidsAlike r s) (name : String) :
    (r.child? name).map visible = (s.child? name).map visible := by
  have same := congrArg (Fields.get? · name) alike
  rwa [Fields.get?_mapValues, Fields.get?_mapValues] at same

/-! Attaching keeps what looks alike alike: below a node that is no object nothing is seen of it. -/

/-- A child of a rule that is no object is not seen, so any two may be put. -/
theorem putChild_alike_of_not_object {r s : Rule} (alike : Alike r s) (other : r.type ≠ .object)
    (name : String) (c d : Rule) : Alike (r.putChild name c) (s.putChild name d) := by
  have otherS : s.type ≠ .object := fun object =>
    other ((congrArg Facets.type alike.facets).trans object)
  have first : (r.putChild name c).visible = ⟨r.facets, r.items, none⟩ :=
    visible_of_not_object (r := r.putChild name c) other
  have second : (s.putChild name d).visible = ⟨s.facets, s.items, none⟩ :=
    visible_of_not_object (r := s.putChild name d) otherS
  unfold Alike
  rw [first, second, alike.facets, alike.items]

/-- A child that is put below an object is seen there. -/
theorem visible_putChild {r : Rule} (object : r.type = .object) (name : String) (c : Rule) :
    (r.putChild name c).visible =
      ⟨r.facets, r.items, some ((Fields.mapValues visible r.kids).put name c.visible)⟩ := by
  rw [visible_of_object (r := r.putChild name c) object, Fields.put_mapValues]
  exact congrArg (Rule.mk r.facets r.items <| some ·) (visibleFields_eq _)

/-- Rules that look alike do so after children that look alike have been put. -/
theorem putChild_alike {r s c d : Rule} (alike : Alike r s) (inner : Alike c d) (name : String) :
    Alike (r.putChild name c) (s.putChild name d) := by
  by_cases object : r.type = .object
  · have type : s.type = .object := (congrArg Facets.type alike.facets).symm.trans object
    unfold Alike
    rw [visible_putChild object, visible_putChild type, kidsAlike_of_object alike object,
      alike.facets, alike.items, inner]
  · exact putChild_alike_of_not_object alike object name c d

/-- Where a child is missing, the new one in its place looks alike too. -/
theorem child_alike {r s : Rule} (alike : Alike r s) (object : r.type = .object) (name : String) :
    Alike ((r.child? name).getD empty) ((s.child? name).getD empty) := by
  have same := (kidsAlike_of_object alike object).child? name
  cases first : r.child? name with
  | none =>
    cases second : s.child? name with
    | none => rfl
    | some d => rw [first, second] at same; cases same
  | some c =>
    cases second : s.child? name with
    | none => rw [first, second] at same; cases same
    | some d =>
      rw [first, second] at same
      exact Option.some.inj same

/-- Attaching rules that look alike to trees that look alike gives such trees, by induction on the
path. -/
theorem attachAt_alike {r s x y : Rule} (alike : Alike r s) (inner : Alike x y) (first : String)
    (rest : List String) : Alike (attachAt r first rest x) (attachAt s first rest y) := by
  induction rest generalizing r s first with
  | nil => exact putChild_alike alike inner first
  | cons next rest ih =>
    by_cases object : r.type = .object
    · exact putChild_alike alike (ih (child_alike alike object first) next) first
    · exact putChild_alike_of_not_object alike object first _ _

/-- The same for a path as a text. -/
theorem attach_alike {r s x y : Rule} (alike : Alike r s) (inner : Alike x y) (path : String) :
    Alike (r.attach path x) (s.attach path y) := by
  unfold attach
  cases segments path with
  | nil => exact alike
  | cons first rest => exact attachAt_alike alike inner first rest

/-! Leaves are found through objects only. -/

mutual

/-- The leaves of what is seen are what is seen of the leaves. -/
theorem flattenFields_visible (path : String) : ∀ cs : List (String × Rule),
    flattenFields path (visibleFields cs) = Fields.mapValues visible (flattenFields path cs)
  | [] => rfl
  | (name, c) :: rest => by
    rw [visibleFields, flattenFields, flattenFields, Fields.mapValues_append,
      leaf_visible (extendPath path name) c, flattenFields_visible path rest]

/-- The same for one child. -/
theorem leaf_visible (path : String) : ∀ c : Rule,
    leaf path c.visible = Fields.mapValues visible (leaf path c)
  | ⟨f, items, none⟩ => rfl
  | ⟨f, items, some cs⟩ => by
    by_cases object : f.type = .object
    · have shown : visible ⟨f, items, some cs⟩ = ⟨f, items, some (visibleFields cs)⟩ := if_pos object
      have inner : visibleFields cs ≠ [] ↔ cs ≠ [] := by
        cases cs <;> simp [visibleFields]
      rw [shown]
      unfold leaf
      simp only [object, true_and, inner]
      split
      · exact flattenFields_visible path cs
      · rw [← shown]
        rfl
    · have shown : visible ⟨f, items, some cs⟩ = ⟨f, items, none⟩ := if_neg object
      rw [shown]
      unfold leaf
      simp only [object, false_and, if_false, Fields.mapValues_cons, Fields.mapValues_nil, shown]

end

theorem flattenFrom_kids (path : String) (r : Rule) :
    r.flattenFrom path = flattenFields path r.kids := by
  obtain ⟨f, items, children⟩ := r
  cases children <;> rfl

/-- Trees whose children look alike have leaves that look alike. -/
theorem flatten_alike {r s : Rule} (alike : KidsAlike r s) (path : String) :
    Fields.mapValues visible (r.flatten path) = Fields.mapValues visible (s.flatten path) := by
  unfold flatten
  rw [flattenFrom_kids, flattenFrom_kids, ← Fields.ofList_mapValues, ← Fields.ofList_mapValues,
    ← flattenFields_visible, ← flattenFields_visible, visibleFields_eq, visibleFields_eq, alike]

end Rule

namespace Wire

theorem requiredNames_visible (cs : List (String × Rule)) :
    requiredNames (Rule.visibleFields cs) = requiredNames cs := by
  induction cs with
  | nil => rfl
  | cons e rest ih =>
    obtain ⟨name, c⟩ := e
    have flag : c.visible.isRequired = c.isRequired := by
      unfold Rule.isRequired
      rw [Rule.facets_visible]
    rw [Rule.visibleFields, requiredNames, requiredNames, flag, ih]

mutual

/-- The document of a rule is that of what is visible of it. -/
theorem ofRule_visible (allowUnknown : Bool) : ∀ r : Rule,
    ofRule allowUnknown r.visible = ofRule allowUnknown r
  | ⟨f, items, none⟩ => rfl
  | ⟨f, items, some cs⟩ => by
    by_cases object : f.type = .object
    · have shown : Rule.visible ⟨f, items, some cs⟩ = ⟨f, items, some (Rule.visibleFields cs)⟩ :=
        if_pos object
      rw [shown]
      unfold ofRule
      simp only [object, ofChildren, Option.getD_some, requiredNames_visible,
        ofFields_visible allowUnknown cs]
    · have shown : Rule.visible ⟨f, items, some cs⟩ = ⟨f, items, none⟩ := if_neg object
      rw [shown]
      unfold ofRule
      cases type : f.type <;> first | exact absurd type object | rfl

/-- Documents show no more of children than what is seen. -/
theorem ofFields_visible (allowUnknown : Bool) : ∀ cs : List (String × Rule),
    ofFields allowUnknown (Rule.visibleFields cs) = ofFields allowUnknown cs
  | [] => rfl
  | (name, c) :: rest => by
    rw [Rule.visibleFields, ofFields, ofFields, ofRule_visible allowUnknown c,
      ofFields_visible allowUnknown rest]

end

/-- Trees whose children look alike have one document. -/
theorem ofTree_alike {r s : Rule} (alike : Rule.KidsAlike r s) (allowUnknown : Bool) :
    ofTree allowUnknown r = ofTree allowUnknown s := by
  have document : ∀ t : Rule, ofTree allowUnknown t =
      ofRule allowUnknown ⟨Rule.empty.facets, none, some (Fields.mapValues Rule.visible t.kids)⟩ := by
    intro t
    unfold ofTree
    rw [← ofRule_visible, ← Rule.visibleFields_eq]
    rfl
  rw [document r, document s, alike]

end Wire

namespace Overrides

/-- Adjusting a leaf changes what is seen as it changes the leaf. -/
theorem adjust_visible (o : Overrides) (path : String) (r : Rule) :
    o.adjust path r.visible = (o.adjust path r).visible := by
  have required : ∀ b : Bool, r.visible.withRequired b = (r.withRequired b).visible := by
    intro b
    by_cases object : r.type = .object
    · rw [Rule.visible_of_object object, Rule.visible_of_object (r := r.withRequired b) object]
      rfl
    · rw [Rule.visible_of_not_object object,
        Rule.visible_of_not_object (r := r.withRequired b) object]
      rfl
  unfold adjust
  split
  · exact required true
  · split
    · exact required false
    · rfl

/-- Selecting leaves selects what is seen of them. -/
theorem selectLeaves_visible (o : Overrides) (leaves : Fields Rule) :
    o.selectLeaves (Fields.mapValues Rule.visible leaves) =
      Fields.mapValues Rule.visible (o.selectLeaves leaves) := by
  induction leaves with
  | nil => rfl
  | cons e rest ih =>
    obtain ⟨path, r⟩ := e
    unfold selectLeaves at ih ⊢
    by_cases kept : o.keeps path = true
    · simp [kept, ih, adjust_visible]
    · simp [kept, ih]

/-- Trees that are built from leaves that look alike look alike. -/
theorem build_alike {leaves others : Fields Rule}
    (same : Fields.mapValues Rule.visible leaves = Fields.mapValues Rule.visible others) :
    Rule.Alike (build leaves) (build others) := by
  have grow : ∀ (root other : Rule), Rule.Alike root other →
      Rule.Alike (leaves.foldl (fun root e => root.attach e.1 e.2) root)
        (others.foldl (fun root e => root.attach e.1 e.2) other) := by
    induction leaves generalizing others with
    | nil =>
      obtain rfl : others = [] := List.map_eq_nil_iff.1 same.symm
      exact fun _ _ alike => alike
    | cons e rest ih =>
      obtain ⟨path, r⟩ := e
      obtain ⟨⟨path', s⟩, rest', rfl, head, tail⟩ := List.map_eq_cons_iff.1 same.symm
      obtain ⟨rfl, inner⟩ := Prod.mk.inj head
      intro root other alike
      exact ih tail.symm _ _ (Rule.attach_alike alike inner.symm path')
  exact grow Rule.empty Rule.empty rfl

theorem facets_attach (root : Rule) (path : String) (rule : Rule) :
    (root.attach path rule).facets = root.facets := by
  unfold Rule.attach
  cases segments path with
  | nil => rfl
  | cons first rest => cases rest <;> rfl

/-- What is built is an object. -/
theorem type_build (leaves : Fields Rule) : (build leaves).type = .object := by
  have grow : ∀ root : Rule, root.type = .object →
      (leaves.foldl (fun root e => root.attach e.1 e.2) root).type = .object := by
    induction leaves with
    | nil => exact fun _ object => object
    | cons e rest ih =>
      intro root object
      exact ih _ ((congrArg Facets.type (facets_attach root e.1 e.2)).trans object)
  exact grow Rule.empty rfl

/-- **Of trees that look alike overrides make one document**, or fail of both. -/
theorem document_alike (o : Overrides) {tree other : Rule} (alike : Rule.KidsAlike tree other)
    (allowUnknown : Bool) :
    (o.apply tree).map (Wire.ofTree allowUnknown) = (o.apply other).map (Wire.ofTree allowUnknown) := by
  unfold apply effective
  cases o.checkAll with
  | error e => rfl
  | ok _ =>
    cases appendedRules o.appended with
    | error e => rfl
    | ok appended =>
      refine congrArg Except.ok (Wire.ofTree_alike ?_ allowUnknown)
      refine Rule.kidsAlike_of_object (build_alike ?_) (type_build _)
      rw [← Fields.putAll_mapValues, ← Fields.putAll_mapValues, ← selectLeaves_visible,
        ← selectLeaves_visible, Rule.flatten_alike alike]

end Overrides

end ShapeContract
