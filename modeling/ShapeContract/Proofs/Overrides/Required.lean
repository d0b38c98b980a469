import ShapeContract.Proofs.Overrides.Optional
import ShapeContract.Proofs.Rule.Dotless
import ShapeContract.Proofs.Rule.Placed

/-!
# Required fields

A path in `required` forces presence where nothing else speaks of it. With a schema an appended rule
that says that the field is not required wins over the list, as the list changes the leaves of the
schema alone; without one `optional` wins over it. `Environment.requires_iff` says that there is no
other way to escape the list.
-/

set_option autoImplicit false

namespace ShapeContract

/-! ## Appended rules -/

namespace Rule

/-- The children of a rule are read from the definition's `children`, which may be missing. -/
theorem kids_of_ofValue {fs : Fields Value} {r : Rule} (read : ofValue (.object fs) = .ok r) :
    r.kids = [] ∨ ∃ gs, ("children", .object gs) ∈ fs ∧ ofFields gs = .ok r.kids := by
  rw [ofValue] at read
  simp only [bind_ok_iff] at read
  obtain ⟨items, -, children, named, f, -, same⟩ := read
  cases same
  cases children with
  | none =>
    left
    unfold settled
    split <;> rfl
  | some cs =>
    right
    rw [settled, if_neg fun none => by simp at none]
    exact exists_of_childrenIn named

theorem fieldValues_eq (cs : Fields Rule) : fieldValues cs = cs.mapValues toValue := by
  induction cs with
  | nil => rfl
  | cons e rest ih =>
    obtain ⟨name, c⟩ := e
    rw [fieldValues, ih]
    rfl

/-- Only its children are written under their name in the record of a rule. -/
theorem children_of_toValue {f : Facets} {items : Option Rule}
    {children : Option (List (String × Rule))} {fs : Fields Value}
    (record : toValue ⟨f, items, children⟩ = .object fs) {v : Value}
    (inside : ("children", v) ∈ fs) : childrenValue children = some v := by
  cases record
  simpa [leadingEntries, countEntries, mem_entry_iff] using inside

/-- A rule that is read from the record of an unambiguous rule is one. -/
theorem unambiguous_of_toValue {r s : Rule} (keyed : r.WellKeyed) {fs gs : Fields Value}
    (record : r.toValue = .object fs) (children : ∀ v, ("children", v) ∈ gs → ("children", v) ∈ fs)
    (read : ofValue (.object gs) = .ok s) : s.Unambiguous := by
  induction r using Rule.induct generalizing s fs gs with
  | node f items cs _ below =>
    obtain ⟨-, -, own⟩ := keyed
    obtain ⟨distinct, each⟩ := childrenWellKeyed_iff.1 own
    refine unambiguous_iff.2 fun _ => ?_
    rcases kids_of_ofValue read with none | ⟨ds, inside, kids⟩
    · rw [none]
      exact ⟨List.nodup_nil, fun _ inside => nomatch inside⟩
    · have written := children_of_toValue record (children _ inside)
      cases cs with
      | none => cases written
      | some cs =>
        cases written
        rw [fieldValues_eq] at kids
        refine ⟨?_, fun e among => ?_⟩
        · rw [keys_ofFields kids, Fields.keys_mapValues]
          exact distinct
        · obtain ⟨v, written, child⟩ := exists_of_ofFields kids among
          obtain ⟨⟨_, c⟩, here, same⟩ := List.mem_map.1 written
          cases same
          obtain ⟨fs, record⟩ : ∃ fs, c.toValue = .object fs := by
            obtain ⟨g, inner, others⟩ := c
            exact ⟨_, rfl⟩
          rw [record] at child
          exact below _ here (each _ here) record (fun _ => id) child

/-- A well keyed definition reads as an unambiguous rule. -/
theorem unambiguous_ofDefinition {v : Value} {r : Rule} (keyed : v.WellKeyed)
    (made : ofDefinition v = .ok r) : r.Unambiguous := by
  obtain ⟨fs, entries, read⟩ := bind_ok_iff.1 made
  cases v with
  | object gs =>
    cases entries
    have defaults : (Value.object appendDefaults).WellKeyed := by
      simp [appendDefaults, Value.WellKeyed, Value.FieldsWellKeyed, Fields.keys]
    have whole := Value.wellKeyed_putAll defaults (Value.wellKeyed_object_iff.1 keyed).2
    exact (wellKeyed_ofValue whole read).unambiguous
  | rule gs =>
    obtain ⟨s, own, written⟩ := bind_ok_iff.1 entries
    clear entries
    split at written
    next record =>
      cases written
      refine unambiguous_of_toValue (wellKeyed_ofValue keyed own) record (fun v inside => ?_) read
      rcases Fields.mem_putAll inside with default | own
      · simp [appendDefaults] at default
      · exact own
    next => cases written
  | _ => cases entries

end Rule

namespace Overrides

/-- So do the appended definitions. -/
theorem unambiguous_appendedRules {definitions : Fields Value} {rules : Fields Rule}
    (keyed : ∀ e ∈ definitions, e.2.WellKeyed) (read : appendedRules definitions = .ok rules) :
    ∀ e ∈ rules, e.2.Unambiguous := by
  induction definitions generalizing rules with
  | nil =>
    cases read
    exact fun _ inside => nomatch inside
  | cons e rest ih =>
    obtain ⟨path, d⟩ := e
    rw [appendedRules, Rule.bind_ok_iff] at read
    obtain ⟨r, here, read⟩ := read
    obtain ⟨rs, later, same⟩ := Rule.bind_ok_iff.1 read
    cases same
    obtain ⟨first, others⟩ := List.forall_mem_cons.1 keyed
    exact List.forall_mem_cons.2 ⟨Rule.unambiguous_ofDefinition first here, ih others later⟩

/-! ## Leaves of the schema -/

/-- Adjusting a leaf leaves it a leaf. -/
theorem not_inner_adjust {o : Overrides} {path : String} {r : Rule} (leaf : ¬ r.Inner) :
    ¬ (o.adjust path r).Inner := by
  unfold adjust
  split
  · exact leaf
  · split <;> exact leaf

/-- A leaf listed as required comes out required. -/
theorem isRequired_adjust {o : Overrides} {path : String} (listed : lists o.required path = true)
    (r : Rule) : (o.adjust path r).isRequired = true := by
  rw [adjust, if_pos listed]
  rfl

/-- A selected leaf of a schema is adjusted at its path. -/
theorem exists_leaf_of_selected {o : Overrides} {tree : Rule} {e : String × Rule}
    (inside : e ∈ o.selectLeaves (tree.flatten "")) :
    ∃ r, (e.1, r) ∈ tree.flatten "" ∧ ¬ r.Inner ∧ e.2 = o.adjust e.1 r := by
  obtain ⟨⟨path, r⟩, stays, rfl⟩ := List.mem_map.1 inside
  have among := List.mem_of_mem_filter stays
  refine ⟨r, among, ?_, rfl⟩
  have listed := Fields.mem_ofList among
  rw [Rule.flattenFrom_eq] at listed
  obtain ⟨d, leaf, same⟩ := List.mem_map.1 listed
  cases same
  exact Rule.not_inner_leavesOf _ d leaf

end Overrides

/-! ## Documents -/

namespace Wire

/-- The document of a property. -/
def property? (document : Value) (name : String) : Option Value := do
  let properties ← (← document.fields?).get? "properties"
  (← properties.fields?).get? name

/-- Whether the object that the names lead to has the last of them in its required list. -/
def requires (document : Value) : List String → Bool
  | [] => false
  | [name] =>
    match document.fields?.bind fun fs => Fields.get? fs "required" with
    | some (.list vs) => (Value.str name).among vs
    | _ => false
  | name :: rest => (property? document name).any fun d => requires d rest

/-- Whether a document has a property of the name. -/
def declares (document : Value) (name : String) : Bool :=
  match document.fields?.bind fun fs => Fields.get? fs "properties" with
  | some properties => (properties.entries?.getD []).any fun e => e.1.text? = some name
  | none => false

/-- An object document requires the names in its list. -/
theorem requires_objectDocument (a : Bool) (properties : Value) (required : List Value)
    (default : Option Value) (name : String) :
    requires (objectDocument a properties required default) [name] =
      (Value.str name).among required := by
  cases required <;> cases default <;> rfl

theorem property?_objectDocument (a : Bool) (ps : Fields Value) (required : List Value)
    (default : Option Value) (name : String) :
    property? (objectDocument a (.object ps) required default) name = ps.get? name := rfl

/-- A child is among the required names when its flag is set. -/
theorem mem_ownRequired_iff {cs : Fields Rule} (distinct : cs.keys.Nodup) {name : String} {c : Rule}
    (inside : (name, c) ∈ cs) : name ∈ ownRequired cs ↔ c.isRequired = true := by
  unfold ownRequired
  constructor
  · intro listed
    obtain ⟨⟨_, d⟩, required, rfl⟩ := List.mem_map.1 listed
    obtain ⟨among, own⟩ := List.mem_filter.1 required
    have first := (Fields.get?_eq_some_iff distinct _ c).2 inside
    have second := (Fields.get?_eq_some_iff distinct _ d).2 among
    rw [Option.some.inj (first.symm.trans second)]
    exact own
  · exact fun own => List.mem_map.2 ⟨(name, c), List.mem_filter.2 ⟨inside, own⟩, rfl⟩

/-- A leaf of an object is required in the document exactly if its rule says so. -/
theorem requires_ofRule (a : Bool) {r c : Rule} (own : r.Unambiguous) (isObject : r.type = .object)
    {names : List String} (leaf : (names, c) ∈ Rule.leavesOf r.kids) :
    requires (ofRule a r) names = c.isRequired := by
  induction names generalizing r with
  | nil => exact absurd rfl (Rule.leavesOf_deep _ _ leaf)
  | cons name rest ih =>
    obtain ⟨distinct, each⟩ := Rule.unambiguous_iff.1 own isObject
    obtain ⟨_, d, _, inside, same, under⟩ := Rule.mem_leavesOf_iff.1 leaf
    cases same
    obtain ⟨f, items, children⟩ := r
    rw [ofRule_of_object a isObject]
    by_cases inner : d.Inner
    · rw [Rule.leavesUnder_of_inner inner] at under
      obtain ⟨next, more, rfl⟩ := List.exists_cons_of_ne_nil (Rule.leavesOf_deep _ _ under)
      have child : Fields.get? (children.getD []) name = some d :=
        (Fields.get?_eq_some_iff distinct name d).2 inside
      rw [requires, property?_objectDocument, ofChildren_eq, Fields.get?_mapValues, child]
      · exact ih (each _ inside) inner.1 under
      · exact nofun
    · rw [Rule.leavesUnder_of_not_inner inner] at under
      cases List.mem_singleton.1 under
      rw [requires_objectDocument, requiredNames_eq, Value.among_texts, Bool.eq_iff_iff, decide_eq_true_iff]
      exact mem_ownRequired_iff distinct inside

/-! ## Without a schema -/

/-- A name is listed when some value of the list is its text. -/
theorem lists_iff {vs : List Value} {name : String} :
    Overrides.lists vs name = true ↔ ∃ v ∈ vs, v.text? = some name := by
  simp [Overrides.lists, Value.among, Value.equal_text (v := .str name) rfl]

/-- A text that is joined to other values is among them then. -/
theorem exists_text_of_foldl {name : String} (known : List Value) {vs : List Value}
    (joined : ∃ v ∈ known ++ vs, v.text? = some name) :
    ∃ v ∈ vs.foldl (fun acc v => if v.among acc then acc else acc ++ [v]) known,
      v.text? = some name := by
  induction vs generalizing known with
  | nil => simpa using joined
  | cons w rest ih =>
    obtain ⟨v, inside, text⟩ := joined
    rw [List.foldl_cons]
    split
    next old =>
      apply ih known
      rcases List.mem_append.1 inside with before | later
      · exact ⟨v, List.mem_append_left _ before, text⟩
      · rcases List.mem_cons.1 later with rfl | later
        · rw [among_eq_lists text, lists_iff] at old
          obtain ⟨u, before, same⟩ := old
          exact ⟨u, List.mem_append_left _ before, same⟩
        · exact ⟨v, List.mem_append_right _ later, text⟩
    next => exact ih _ ⟨v, by simpa using inside, text⟩

/-- Without a schema a listed name is required unless it is optional. -/
theorem requires_ofOverrides {a : Bool} {o : Overrides} {d : Value} (made : ofOverrides a o = .ok d)
    {name : String} (listed : Overrides.lists o.required name = true) :
    requires d [name] = true ↔ Overrides.lists o.optional name = false := by
  obtain ⟨rules, -, -, -, -, rfl⟩ := ofOverrides_ok_iff.1 made
  rw [requires_objectDocument, ← Overrides.lists, lists_iff]
  constructor
  · rintro ⟨v, required, text⟩
    have kept := List.of_mem_filter required
    rwa [among_eq_lists text, Bool.not_eq_true'] at kept
  · intro optional
    obtain ⟨v, inside, text⟩ := lists_iff.1 listed
    obtain ⟨w, joined, same⟩ := exists_text_of_foldl (requiredNames rules)
      ⟨v, List.mem_append_right _ inside, text⟩
    refine ⟨w, List.mem_filter.2 ⟨joined, ?_⟩, same⟩
    rw [among_eq_lists same, optional]
    rfl

end Wire

/-! ## With a schema -/

namespace Overrides

/-- The effective leaves are unambiguous: those of the tree are leaves, the others are read from
definitions. -/
theorem unambiguous_effective {o : Overrides} {tree : Rule}
    (keyed : (Value.object o.appended).WellKeyed) {leaves : Fields Rule}
    (made : o.effective tree = .ok leaves) : ∀ e ∈ leaves, e.2.Unambiguous := by
  obtain ⟨-, rules, read, rfl⟩ := effective_ok_iff.1 made
  intro e inside
  rcases Fields.mem_putAll inside with selected | appended
  · obtain ⟨r, -, leaf, adjusted⟩ := exists_leaf_of_selected selected
    rw [adjusted]
    exact Rule.unambiguous_of_not_inner (not_inner_adjust leaf)
  · exact unambiguous_appendedRules (Value.wellKeyed_object_iff.1 keyed).2 read e appended

/-- An appended rule is the last one at a place or above it, and it does not require that place. -/
def Unrequires (o : Overrides) (leaves : Fields Rule) (names : List String) : Prop :=
  ∃ e c, Rule.lastAbove names leaves = some e ∧ e.1 ∈ o.appended.keys ∧
    e.2.node? (names.drop (segments e.1).length) = some c ∧ c.isRequired = false

/-- A leaf at a listed path is required unless an appended rule does not require it. -/
theorem isRequired_iff {o : Overrides} {tree : Rule} (plain : tree.Dotless)
    (keyed : (Value.object o.appended).WellKeyed) {leaves : Fields Rule}
    (made : o.effective tree = .ok leaves) {names : List String} {r : Rule}
    (leaf : (names, r) ∈ Rule.leavesOf (build leaves).kids)
    (listed : lists o.required (dotted "" names) = true) :
    r.isRequired = true ↔ ¬ o.Unrequires leaves names := by
  obtain ⟨-, rules, read, same⟩ := effective_ok_iff.1 made
  have each := unambiguous_effective keyed made
  obtain ⟨e, more, s, last, path, under, facets⟩ := placed_build each leaf
  have rest : names.drop (segments e.1).length = more := by rw [path, List.drop_left]
  have inside : e ∈ leaves := List.mem_of_mem_filter (List.mem_of_getLast? last)
  have node : e.2.node? more = some s := Rule.node?_of_leaf (each e inside) under
  rw [show r.isRequired = s.isRequired by rw [Rule.isRequired, Rule.isRequired, facets]]
  constructor
  · rintro own ⟨d, c, last', -, node', not⟩
    cases last.symm.trans last'
    rw [rest, node] at node'
    cases node'
    rw [own] at not
    cases not
  · intro required
    by_contra own
    rw [← same] at inside
    rcases Fields.mem_putAll inside with selected | appended
    · -- A leaf of the schema was adjusted under its own path, which is the listed one.
      obtain ⟨c, leaf, atomic, adjusted⟩ := exists_leaf_of_selected selected
      rw [adjusted, Rule.leavesUnder_of_not_inner (not_inner_adjust atomic)] at under
      cases List.mem_singleton.1 under
      rw [path, List.append_nil, plain.dotted_segments leaf] at listed
      exact own (isRequired_adjust listed c)
    · refine required ⟨e, s, last, ?_, by rwa [rest], eq_false_of_ne_true own⟩
      rw [← keys_appendedRules read]
      exact List.mem_map_of_mem appended

/-- An appended field that says so is not required, though it is listed. -/
example :
    let o : Overrides :=
      { required := [.str "y"], appended := [("y", .object [("required", .bool false)])] }
    o.Unrequires [("y", ⟨{ type := .string, required := some (.bool false) }, none, none⟩)] ["y"] :=
  ⟨_, _, rfl, by decide, rfl, rfl⟩

/-- The document of the adapted tree requires a leaf exactly if its rule says so. -/
theorem requires_ofTree_build {o : Overrides} {tree : Rule}
    (keyed : (Value.object o.appended).WellKeyed) {leaves : Fields Rule}
    (made : o.effective tree = .ok leaves) {names : List String} {r : Rule}
    (leaf : (names, r) ∈ Rule.leavesOf (build leaves).kids) {a : Bool} :
    Wire.requires (Wire.ofTree a (build leaves)) names = r.isRequired := by
  obtain ⟨own, isObject⟩ := unambiguous_build (unambiguous_effective keyed made)
  have kids := Rule.unambiguous_iff.1 own isObject
  have root : Rule.Unambiguous ⟨Rule.empty.facets, none, some (build leaves).kids⟩ :=
    Rule.unambiguous_iff.2 fun _ => kids
  exact Wire.requires_ofRule a root rfl leaf

end Overrides

namespace Environment

theorem dotless_tree {env : Environment} {s : Subject} {tree : Rule} (read : env.tree s = .ok tree) :
    tree.Dotless := by
  obtain ⟨bound, -, walked⟩ := Rule.bind_ok_iff.1 read
  exact Introspection.dotless_walk env.catalog bound walked

/-- The document derived for a schema is that of its adapted tree. -/
theorem document_of_derive {env : Environment} {s : Subject} {o : Overrides} {a : Bool}
    {document : Value} {tree adapted : Rule} (derived : env.derive (some s) o a = .ok document)
    (introspected : env.tree s = .ok tree) (made : o.apply tree = .ok adapted) :
    document = Wire.ofTree a adapted := by
  unfold derive at derived
  simp only [introspected, made, bind, Except.bind] at derived
  cases derived
  rfl

/-- A leaf of the effective shape: a property without a schema, a leaf of the adapted tree with
one. -/
def Leaf (env : Environment) (schema : Option Subject) (o : Overrides) (document : Value)
    (names : List String) : Prop :=
  match schema with
  | none => ∃ name, names = [name] ∧ Wire.declares document name = true
  | some s => ∃ tree adapted r, env.tree s = .ok tree ∧ o.apply tree = .ok adapted ∧
      (names, r) ∈ Rule.leavesOf adapted.kids

/-- What wins over the required list: without a schema the optional list, with one an appended
rule. -/
def Waives (env : Environment) (schema : Option Subject) (o : Overrides) (names : List String) :
    Prop :=
  match schema with
  | none => Overrides.lists o.optional (dotted "" names) = true
  | some s => ∃ tree leaves, env.tree s = .ok tree ∧ o.effective tree = .ok leaves ∧
      o.Unrequires leaves names

/-- **A leaf at a listed path is in the required list of its parent, unless that is waived.** -/
theorem requires_iff {env : Environment} {schema : Option Subject} {o : Overrides}
    (keyed : (Value.object o.appended).WellKeyed) {allowUnknown : Bool} {document : Value}
    (derived : env.derive schema o allowUnknown = .ok document) {names : List String}
    (leaf : env.Leaf schema o document names)
    (listed : Overrides.lists o.required (dotted "" names) = true) :
    Wire.requires document names = true ↔ ¬ env.Waives schema o names := by
  cases schema with
  | none =>
    obtain ⟨name, rfl, -⟩ := leaf
    change Overrides.lists o.required name = true at listed
    rw [Wire.requires_ofOverrides derived listed, ← Bool.not_eq_true]
    rfl
  | some s =>
    obtain ⟨tree, adapted, r, introspected, made, leaf⟩ := leaf
    obtain ⟨leaves, listing, rfl⟩ := Overrides.apply_ok_iff.1 made
    rw [document_of_derive derived introspected made]
    rw [Overrides.requires_ofTree_build keyed listing leaf,
      Overrides.isRequired_iff (dotless_tree introspected) keyed listing leaf listed]
    refine not_congr ⟨fun waived => ⟨tree, leaves, introspected, listing, waived⟩, ?_⟩
    rintro ⟨tree', leaves', introspected', listing', waived⟩
    cases introspected.symm.trans introspected'
    cases listing.symm.trans listing'
    exact waived

/-- A name that is required and optional, without a schema: it is not required. -/
theorem requires_iff_tied :
    let env : Environment := ⟨[], .ok 32⟩
    let o : Overrides :=
      { required := [.str "y"]
        optional := [.str "y"]
        appended := [("y", .object [("type", .str "number")])] }
    (Value.object o.appended).WellKeyed ∧ ∃ document, env.derive none o false = .ok document ∧
      env.Leaf none o document ["y"] ∧ Overrides.lists o.required (dotted "" ["y"]) = true ∧
      (Wire.requires document ["y"] = true ↔ ¬ env.Waives none o ["y"]) ∧
      Wire.requires document ["y"] = false := by
  intro env o
  have keyed : (Value.object o.appended).WellKeyed := by
    simp [o, Value.WellKeyed, Value.FieldsWellKeyed, Fields.keys]
  obtain ⟨document, derived, declared⟩ : ∃ document, env.derive none o false = .ok document ∧
      Wire.declares document "y" = true := ⟨_, rfl, by decide +kernel⟩
  have leaf : env.Leaf none o document ["y"] := ⟨"y", rfl, declared⟩
  have listed : Overrides.lists o.required (dotted "" ["y"]) = true := by decide +kernel
  have waived : env.Waives none o ["y"] := listed
  have tied := requires_iff keyed derived leaf listed
  refine ⟨keyed, document, derived, leaf, listed, tied, ?_⟩
  exact eq_false_of_ne_true fun required => tied.1 required waived

end Environment

end ShapeContract
