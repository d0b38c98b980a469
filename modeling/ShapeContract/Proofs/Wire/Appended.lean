import ShapeContract.Proofs.Fields
import ShapeContract.Proofs.Overrides.Neutral
import ShapeContract.Proofs.Overrides.Optional
import ShapeContract.Proofs.Rule.Dotless
import ShapeContract.Proofs.Rule.Keyed
import ShapeContract.Proofs.Wire.Open

/-!
# Two documents of appended definitions

Appended definitions make a document at once, without a schema, or by way of a tree: the empty tree
is adapted and written. The two read a definition over other defaults, and only the second takes a
definition that is silent about it for required. So where every definition says whether it is
required, and no name is a path, the two are one: `Wire.ofOverrides_eq_ofTree`.
-/

set_option autoImplicit false

namespace ShapeContract

/-! ## Reading a record by its names -/

namespace Rule

/-- Records with the same values under all names are read alike. -/
theorem ofValue_congr {fs gs : Fields Value} (same : ∀ name, fs.get? name = gs.get? name) :
    ofValue (.object fs) = ofValue (.object gs) := by
  have facets : facetsOf fs = facetsOf gs := by
    simp only [facetsOf, facet?, same]
  rw [ofValue, ofValue, itemsIn_eq, itemsIn_eq, childrenIn_eq, childrenIn_eq, facets, same, same]

end Rule

namespace Wire

/-- A definition that says whether it is required, to any value, or null. -/
def States (v : Value) : Prop := ∃ fs, v = .object fs ∧ Fields.contains fs "required"

/-- **Such a definition means one rule**, with a schema and without one. -/
theorem openRule_eq_ofDefinition {v : Value} (states : States v) :
    openRule v = Rule.ofDefinition v := by
  obtain ⟨fs, rfl, stated⟩ := states
  refine Rule.ofValue_congr (Fields.get?_putAll_congr _ _ fun name unwritten => ?_)
  have other : "required" ≠ name := fun here =>
    unwritten (here ▸ Fields.mem_keys_of_contains stated)
  simp [Rule.appendDefaults, other]

theorem openRules_eq_appendedRules {defs : Fields Value} (states : ∀ e ∈ defs, States e.2) :
    openRules defs = Overrides.appendedRules defs := by
  induction defs with
  | nil => rfl
  | cons e rest ih =>
    obtain ⟨name, v⟩ := e
    obtain ⟨first, others⟩ := List.forall_mem_cons.1 states
    rw [openRules, Overrides.appendedRules, openRule_eq_ofDefinition first, ih others]

/-- Without a schema, appended definitions alone make a document of their rules. -/
theorem ofOverrides_appended (allowUnknown : Bool) {defs : Fields Value} (own : defs.keys.Nodup) :
    ofOverrides allowUnknown { appended := defs } = (openRules defs).map fun rules =>
      .object (objectKeywords allowUnknown (ofFields allowUnknown rules) (requiredNames rules)) := by
  cases read : openRules defs with
  | error e => simp only [ofOverrides, read, bind, Except.bind, Except.map]
  | ok rules =>
    have properties := openProperties_eq allowUnknown (keys_openRules read ▸ own) []
    have required : openRequired { appended := defs } rules = requiredNames rules :=
      List.filter_eq_self.2 fun _ _ => rfl
    have unlisted : Overrides.checkPaths [] = .ok () := rfl
    rw [openProperties, ← ofFields_eq, freshNames, textProperties, List.map_nil, List.map_nil,
      List.append_nil] at properties
    unfold textDocument at properties
    simp only [ofOverrides, read, required, unlisted, List.all_nil, Bool.not_true,
      Bool.false_eq_true, if_false, ite_self, bind, Except.bind, Except.map]
    rw [properties]
    rfl

/-- The overrides that append definitions and do nothing else. -/
theorem ofValue_append (defs : Fields Value) :
    Overrides.ofValue (.object [("append", .object defs)]) =
      .ok { appended := Fields.ofList defs } := by
  have named : (Entries.ofFields defs).map (fun e => (e.1.text?.getD e.1.display, e.2)) = defs :=
    List.map_map.trans (List.map_id _)
  cases defs with
  | nil => rfl
  | cons e rest =>
    have appended : Overrides.appendEntries (some (.object (e :: rest))) =
        .ok (Fields.ofList (e :: rest)) := congrArg (Except.ok ∘ Fields.ofList) named
    have found : Fields.get? [("append", Value.object (e :: rest))] "append" =
        some (.object (e :: rest)) := rfl
    have missing : ∀ name, name ≠ "append" →
        Overrides.pathList (Fields.get? [("append", Value.object (e :: rest))] name) = .ok [] := by
      intro name other
      rw [Fields.get?_cons, if_neg (Ne.symm other)]
      rfl
    rw [Overrides.ofValue, missing _ (by decide), missing _ (by decide), missing _ (by decide),
      missing _ (by decide), found, appended]
    rfl

/-- Appended to the empty tree, definitions make a tree of their rules. -/
theorem apply_appended {defs : Fields Value} (own : defs.keys.Nodup)
    (dotless : ∀ e ∈ defs, '.' ∉ e.1.toList) :
    Overrides.apply { appended := defs } Rule.empty =
      (Overrides.appendedRules defs).map fun rules => ⟨Rule.empty.facets, none, some rules⟩ := by
  cases read : Overrides.appendedRules defs with
  | error e => simp only [Overrides.apply, Overrides.effective, read]; rfl
  | ok rules =>
    have keys := Overrides.keys_appendedRules read
    have ownRules : rules.keys.Nodup := keys ▸ own
    have plain : ∀ e ∈ rules, '.' ∉ e.1.toList := by
      intro e inside
      have member : e.1 ∈ defs.keys := keys ▸ List.mem_map_of_mem inside
      obtain ⟨d, given, same⟩ := List.mem_map.1 member
      exact same ▸ dotless d given
    refine Overrides.apply_ok_iff.2 ⟨_, Overrides.effective_ok_iff.2 ⟨rfl, rules, read, rfl⟩, ?_⟩
    have alone : Fields.putAll [] rules = rules := Fields.ofList_of_nodup rules ownRules
    change Overrides.build (Fields.putAll [] rules) = _
    rw [alone]
    exact @Rule.attachAll_dotless Rule.empty.facets none rules [] ownRules plain

/-- **The two ways agree.** For appended definitions that say whether they are required, under names
that are no paths, the document made without a schema is the document of the adapted empty tree; if
one fails the other fails alike. -/
theorem ofOverrides_eq_ofTree (allowUnknown : Bool) {defs : Fields Value}
    (dotless : ∀ e ∈ defs, '.' ∉ e.1.toList) (states : ∀ e ∈ defs, States e.2) :
    ∃ o, Overrides.ofValue (.object [("append", .object defs)]) = .ok o ∧
      ofOverrides allowUnknown o = (o.apply Rule.empty).map (ofTree allowUnknown) := by
  have own : (Fields.ofList defs).keys.Nodup := @Fields.nodup_keys_putAll _ [] List.nodup_nil defs
  have dotless' : ∀ e ∈ Fields.ofList defs, '.' ∉ e.1.toList :=
    fun e inside => dotless e (Fields.mem_ofList inside)
  have states' : ∀ e ∈ Fields.ofList defs, States e.2 :=
    fun e inside => states e (Fields.mem_ofList inside)
  refine ⟨_, ofValue_append defs, ?_⟩
  rw [ofOverrides_appended allowUnknown own, apply_appended own dotless',
    openRules_eq_appendedRules states']
  cases Overrides.appendedRules (Fields.ofList defs) with
  | error e => rfl
  | ok rules =>
    exact congrArg Except.ok (ofTree_eq allowUnknown ⟨Rule.empty.facets, none, some rules⟩).symm

/-- An amount that is required and a note that says it is not. -/
def orderDefinitions : Fields Value :=
  [("total", .object [("type", .str "number"), ("required", .bool true), ("min", .int 0)]),
    ("note", .object [("required", .null), ("maxLength", .int 80)])]

theorem ofOverrides_eq_ofTree_order :
    (∀ e ∈ orderDefinitions, '.' ∉ e.1.toList) ∧ (∀ e ∈ orderDefinitions, States e.2) ∧
      ∃ o, Overrides.ofValue (.object [("append", .object orderDefinitions)]) = .ok o ∧
        ofOverrides false o = (o.apply Rule.empty).map (ofTree false) := by
  have dotless : ∀ e ∈ orderDefinitions, '.' ∉ e.1.toList := by
    simp [orderDefinitions]
  have states : ∀ e ∈ orderDefinitions, States e.2 := by
    simp only [orderDefinitions, List.forall_mem_cons]
    exact ⟨⟨_, rfl, rfl⟩, ⟨_, rfl, rfl⟩, List.forall_mem_nil _⟩
  exact ⟨dotless, states, ofOverrides_eq_ofTree false dotless states⟩

end Wire

end ShapeContract
