import ShapeContract.Overrides.Apply
import ShapeContract.Proofs.Rule.Rebuild
import ShapeContract.Wire.Emission

/-!
# No overrides

Without overrides every leaf stays as it is, and the adapted tree is the base tree rebuilt from its
leaves. An object with children comes back bare: if it was required or had a default, its document
no longer says so. `Rule.interiorsBare` names the trees that keep their documents, and
`Overrides.ofTree_adapted_iff` says that no others do.
-/

set_option autoImplicit false

namespace ShapeContract

namespace Rule

mutual

/-- No object with children is required or has a default, among children and below them. -/
def interiorsBare : List (String × Rule) → Bool
  | [] => true
  | (_, c) :: rest => bareInside c && interiorsBare rest

/-- Nothing that a rebuilt node would lose. -/
def bareInside : Rule → Bool
  | ⟨_, _, none⟩ => true
  | ⟨f, _, some cs⟩ =>
    if f.type = .object ∧ cs ≠ [] then
      !f.required.any Value.truthy && f.default.isNone && interiorsBare cs
    else true

end

end Rule

namespace Overrides

@[simp] theorem keeps_nothing (path : String) : keeps {} path = true := rfl

@[simp] theorem adjust_nothing (path : String) (r : Rule) : adjust {} path r = r := rfl

theorem selectLeaves_nothing (leaves : Fields Rule) : selectLeaves {} leaves = leaves := by
  simp [selectLeaves]

theorem build_dotted (leaves : List (List String × Rule)) (deep : ∀ e ∈ leaves, e.1 ≠ [])
    (plain : ∀ e ∈ leaves, ∀ name ∈ e.1, IsSegment name) :
    build (leaves.map fun e => (dotted "" e.1, e.2)) = Rule.empty.attachEach leaves := by
  unfold build Rule.attachEach
  rw [List.foldl_map]
  refine List.foldl_ext _ _ _ ?_
  intro root e member
  exact Rule.attach_dotted root e.2 (plain e member) (deep e member)

/-- Without overrides a tree comes back rebuilt. -/
theorem apply_nothing {tree : Rule} (named : tree.WellNamed) :
    apply {} tree = .ok ⟨Rule.empty.facets, none, some (Rule.rebuiltFields tree.kids)⟩ := by
  have kids := Rule.fieldsWellNamed_kids named
  have leaves : effective {} tree = .ok (tree.flatten "") := by
    show Except.ok (Fields.putAll (selectLeaves {} (tree.flatten "")) []) = _
    rw [selectLeaves_nothing]
    rfl
  have attached := Rule.attachEach_leavesOf Rule.empty.facets none tree.kids [] kids
    (by simp [Fields.keys])
  have built := build_dotted _ (Rule.leavesOf_deep tree.kids) (Rule.leavesOf_segments _ kids)
  rw [← Rule.flatten_eq named] at built
  rw [apply, leaves]
  show Except.ok (build (tree.flatten "")) = _
  rw [built]
  exact congrArg Except.ok attached

end Overrides

namespace Wire

theorem requiredEntry_append_inj {names others : List Value} {value : Value}
    {more : Fields Value}
    (same : requiredEntry names ++ [("additionalProperties", value)] =
      requiredEntry others ++ ("additionalProperties", value) :: more) :
    names = others ∧ more = [] := by
  unfold requiredEntry at same
  cases names <;> cases others <;> simp_all

/-- The document of an object determines its properties, its required names and its default. -/
theorem objectKeywords_inj {a : Bool} {ps qs : Fields Value} {names others : List Value}
    {more : Fields Value}
    (same : objectKeywords a ps names = objectKeywords a qs others ++ more) :
    ps = qs ∧ names = others ∧ more = [] := by
  simp only [objectKeywords, List.cons_append, List.nil_append, List.append_assoc,
    List.cons.injEq, Prod.mk.injEq, Value.object.injEq, true_and] at same
  exact ⟨same.1, requiredEntry_append_inj same.2⟩

theorem ofRule_object (a : Bool) {f : Facets} (items : Option Rule) (cs : List (String × Rule))
    (isObject : f.type = .object) :
    ofRule a ⟨f, items, some cs⟩ =
      .object (objectKeywords a (ofFields a cs) (requiredNames cs) ++
        Rule.entry "default" f.default) := by
  simp [ofRule, ofChildren, isObject]

/-- An object that says nothing of itself. -/
theorem ofRule_bareObject (a : Bool) (cs : List (String × Rule)) :
    ofRule a ⟨Rule.empty.facets, none, some cs⟩ =
      .object (objectKeywords a (ofFields a cs) (requiredNames cs)) := by
  rw [ofRule_object a none cs rfl]
  exact congrArg Value.object (List.append_nil _)

theorem ofTree_eq (a : Bool) (tree : Rule) :
    ofTree a tree =
      .object (objectKeywords a (ofFields a tree.kids) (requiredNames tree.kids)) :=
  ofRule_bareObject a tree.kids

theorem requiredNames_cons (name : String) (c : Rule) (rest : List (String × Rule)) :
    requiredNames ((name, c) :: rest) =
      if c.isRequired then .str name :: requiredNames rest else requiredNames rest := rfl

theorem isRequired_rebuilt (c : Rule) (req : c.rebuilt.isRequired = true) :
    c.isRequired = true := by
  obtain ⟨f, items, children⟩ := c
  cases children with
  | none => exact req
  | some cs =>
    unfold Rule.rebuilt at req
    split at req
    · exact absurd req Bool.false_ne_true
    · exact req

/-- Rebuilding can only lose names. -/
theorem requiredNames_rebuilt_sublist (cs : List (String × Rule)) :
    (requiredNames (Rule.rebuiltFields cs)).Sublist (requiredNames cs) := by
  induction cs with
  | nil => exact List.Sublist.refl _
  | cons e rest ih =>
    obtain ⟨name, c⟩ := e
    rw [Rule.rebuiltFields, requiredNames_cons, requiredNames_cons]
    by_cases after : c.rebuilt.isRequired = true
    · rw [if_pos after, if_pos (isRequired_rebuilt c after)]
      exact ih.cons_cons _
    · rw [if_neg after]
      split
      · exact ih.cons _
      · exact ih

/-- Lists of required names agree only if every child keeps its word. -/
theorem requiredNames_rebuilt_cons {name : String} {c : Rule} {rest : List (String × Rule)} :
    requiredNames (Rule.rebuiltFields ((name, c) :: rest)) = requiredNames ((name, c) :: rest) ↔
      c.rebuilt.isRequired = c.isRequired ∧
        requiredNames (Rule.rebuiltFields rest) = requiredNames rest := by
  rw [Rule.rebuiltFields, requiredNames_cons, requiredNames_cons]
  constructor
  · intro same
    by_cases after : c.rebuilt.isRequired = true
    · have before := isRequired_rebuilt c after
      rw [if_pos after, if_pos before] at same
      exact ⟨after.trans before.symm, (List.cons.inj same).2⟩
    · by_cases before : c.isRequired = true
      · rw [if_neg after, if_pos before] at same
        have shorter := (requiredNames_rebuilt_sublist rest).length_le
        rw [same, List.length_cons] at shorter
        omega
      · rw [if_neg after, if_neg before] at same
        simp only [Bool.not_eq_true] at after before
        exact ⟨after.trans before.symm, same⟩
  · rintro ⟨kept, rest⟩
    rw [kept, rest]

mutual

/-- Children keep their documents and their place among the required names exactly if nothing is
lost among them. -/
theorem fields_rebuilt_iff (a : Bool) : ∀ cs : List (String × Rule),
    (ofFields a (Rule.rebuiltFields cs) = ofFields a cs ∧
        requiredNames (Rule.rebuiltFields cs) = requiredNames cs) ↔
      Rule.interiorsBare cs = true
  | [] => by simp [Rule.rebuiltFields, Rule.interiorsBare]
  | (name, c) :: rest => by
    have node := node_rebuilt_iff a c
    have others := fields_rebuilt_iff a rest
    have documents : ofFields a (Rule.rebuiltFields ((name, c) :: rest)) =
        ofFields a ((name, c) :: rest) ↔
        ofRule a c.rebuilt = ofRule a c ∧
          ofFields a (Rule.rebuiltFields rest) = ofFields a rest := by
      simp [Rule.rebuiltFields, ofFields]
    rw [documents, requiredNames_rebuilt_cons, Rule.interiorsBare, Bool.and_eq_true, ← node,
      ← others]
    tauto

theorem node_rebuilt_iff (a : Bool) : ∀ c : Rule,
    (ofRule a c.rebuilt = ofRule a c ∧ c.rebuilt.isRequired = c.isRequired) ↔
      c.bareInside = true
  | ⟨f, items, none⟩ => by simp [Rule.rebuilt, Rule.bareInside]
  | ⟨f, items, some cs⟩ => by
    have inner := fields_rebuilt_iff a cs
    unfold Rule.rebuilt Rule.bareInside
    split
    next interior =>
      have before := ofRule_object a items cs interior.1
      have after := ofRule_bareObject a (Rule.rebuiltFields cs)
      have silent : Rule.entry "default" f.default = [] ↔ f.default.isNone = true := by
        cases f.default <;> simp [Rule.entry]
      rw [before, after, Value.object.injEq, Bool.and_eq_true, Bool.and_eq_true, ← inner, ← silent]
      constructor
      · rintro ⟨same, kept⟩
        obtain ⟨properties, names, quiet⟩ := objectKeywords_inj same
        exact ⟨⟨by simpa [Rule.isRequired, Rule.empty, Rule.bare] using kept.symm, quiet⟩,
          properties, names⟩
      · rintro ⟨⟨optional, quiet⟩, properties, names⟩
        rw [properties, names, quiet]
        exact ⟨by simp, by simpa [Rule.isRequired, Rule.empty, Rule.bare] using optional⟩
    next => simp

end

end Wire

namespace Overrides

/-- **Without overrides a document stays the same exactly if no object with children, below the
root, is required or has a default.** The adapted tree is always made. -/
theorem ofTree_adapted_iff (tree : Rule) (named : tree.WellNamed) (allowUnknown : Bool) :
    ∃ adapted, (ofValue .null >>= fun o => o.apply tree) = .ok adapted ∧
      (Wire.ofTree allowUnknown adapted = Wire.ofTree allowUnknown tree ↔
        Rule.interiorsBare tree.kids = true) := by
  refine ⟨_, apply_nothing named, ?_⟩
  rw [← Wire.fields_rebuilt_iff allowUnknown]
  rw [Wire.ofTree_eq, Wire.ofTree_eq]
  constructor
  · intro same
    rw [Value.object.injEq, ← List.append_nil (Wire.objectKeywords _ _ (Wire.requiredNames tree.kids))]
      at same
    obtain ⟨properties, names, _⟩ := Wire.objectKeywords_inj same
    exact ⟨properties, names⟩
  · rintro ⟨properties, names⟩
    have kids : ∀ cs, Rule.kids ⟨Rule.empty.facets, none, some cs⟩ = cs := fun _ => rfl
    rw [kids, properties, names]

/-- A document with an embedded one, which may be required. -/
def withAddress (required : Option Value) : Rule :=
  ⟨Rule.empty.facets, none,
    some [("address", ⟨{ type := .object, required }, none, some [("street", Rule.bare .string)]⟩)]⟩

theorem wellNamed_withAddress (required : Option Value) : (withAddress required).WellNamed := by
  have street : IsSegment "street" := by decide
  have address : IsSegment "address" := by decide
  simp [withAddress, Rule.WellNamed, Rule.FieldsWellNamed, Rule.bare, Fields.keys, street, address]

theorem ofTree_adapted_optional_address :
    (withAddress none).WellNamed ∧
      ∃ adapted, (ofValue .null >>= fun o => o.apply (withAddress none)) = .ok adapted ∧
        Wire.ofTree false adapted = Wire.ofTree false (withAddress none) := by
  have named := wellNamed_withAddress none
  obtain ⟨adapted, made, same⟩ := ofTree_adapted_iff (withAddress none) named false
  exact ⟨named, adapted, made, same.2 (by decide +kernel)⟩

/-- A required embedded document is no longer required. -/
theorem ofTree_adapted_required_address :
    ∃ adapted, (ofValue .null >>= fun o => o.apply (withAddress (some (.bool true)))) = .ok adapted ∧
      Wire.requiredNames adapted.kids = [] ∧
      Wire.requiredNames (withAddress (some (.bool true))).kids = [.str "address"] ∧
      Wire.ofTree false adapted ≠ Wire.ofTree false (withAddress (some (.bool true))) := by
  refine ⟨_, apply_nothing (wellNamed_withAddress _), rfl, rfl, ?_⟩
  intro same
  rw [Wire.ofTree_eq, Wire.ofTree_eq, Value.object.injEq, ← List.append_nil
    (Wire.objectKeywords false (Wire.ofFields false (Rule.kids (withAddress _))) _)] at same
  exact List.cons_ne_nil _ _ (Wire.objectKeywords_inj same).2.1.symm

end Overrides

end ShapeContract
