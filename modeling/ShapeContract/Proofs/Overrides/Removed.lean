import ShapeContract.Proofs.Overrides.Sharing
import ShapeContract.Proofs.Registry.Transparency
import ShapeContract.Proofs.Rule.Misses
import ShapeContract.Proofs.Wire.Answers
import ShapeContract.Proofs.Wire.Faithful
import ShapeContract.Proofs.Wire.Undeclared

/-!
# Removed fields

A leaf that overrides remove, with nothing appended at its path, above or below, is missed by the
adapted tree. Its validator then accepts no data with a value there, and what a payload has there
makes no difference.
-/

set_option autoImplicit false

namespace ShapeContract

/-! ## Values -/

namespace Value

/-- Following the names through objects, some member is not there. -/
def Lacks : List String → Value → Prop
  | [], _ => False
  | name :: rest, v => ∃ fs, v.members? = some fs ∧ ∀ w, fs.get? name = some w → Lacks rest w

/-- Two values that differ only in what is at a path, or in whether there is anything, in an object
that both have. -/
inductive DifferAt : List String → Value → Value → Prop
  | last {name : String} {fs gs : Fields Value} (others : fs.erase name = gs.erase name) :
      DifferAt [name] (.object fs) (.object gs)
  | inner {name : String} {names : List String} {v w : Value} (before after : Fields Value)
      (deep : DifferAt names v w) :
      DifferAt (name :: names) (.object (before ++ (name, v) :: after))
        (.object (before ++ (name, w) :: after))

end Value

/-! ## The adapted tree -/

namespace Overrides

/-- The overrides exclude a path, or include others only. -/
def Removes (o : Overrides) (path : String) : Prop :=
  lists o.excluded path = true ∨ (o.included ≠ [] ∧ lists o.included path = false)

theorem keeps_of_removes {o : Overrides} {path : String} (removes : o.Removes path) :
    o.keeps path = false := by
  unfold keeps
  rcases removes with excluded | ⟨some, absent⟩
  · simp [excluded]
  · simp [absent, some]

theorem mem_selectLeaves {o : Overrides} {leaves : Fields Rule} {e : String × Rule}
    (inside : e ∈ o.selectLeaves leaves) : o.keeps e.1 = true ∧ ∃ r, (e.1, r) ∈ leaves := by
  obtain ⟨d, stays, rfl⟩ := List.mem_map.1 inside
  obtain ⟨among, kept⟩ := List.mem_filter.1 stays
  exact ⟨kept, d.2, among⟩

/-- **The adapted tree misses a removed leaf**, unless something is appended at it, above or
below. -/
theorem misses_of_removes {o : Overrides} {tree adapted : Rule} (named : tree.WellNamed)
    {path : String} (leaf : (tree.flatten "").contains path = true) (removes : o.Removes path)
    (apart : ∀ other ∈ o.appended.keys, Incomparable (segments path) (segments other))
    (made : o.apply tree = .ok adapted) : adapted.Misses (segments path) := by
  obtain ⟨-, rules, -, read, rfl⟩ := exists_of_apply made
  obtain ⟨r, here⟩ := Fields.contains_iff.1 leaf
  refine Rule.misses_attachAll _ ?_ (Rule.misses_empty (segments_ne_nil path))
  intro e inside
  rcases Fields.mem_putAll inside with selected | appended
  · obtain ⟨kept, c, there⟩ := mem_selectLeaves selected
    have ne : path ≠ e.1 := by
      rintro rfl
      rw [keeps_of_removes removes] at kept
      cases kept
    exact Rule.incomparable_of_flatten named here there ne
  · apply apart
    rw [← keys_appendedRules read]
    exact List.mem_map_of_mem appended

end Overrides

/-! ## The validator -/

namespace Wire

open Schema (ofDocument keywordsOf membersOf)

theorem complaints_of_check [CharacterNames] {a : Bool} {r : Rule} {v : Value}
    (clean : check (ofDocument (ofRule a r)) v = []) : r.complaints a v = [] := by
  rw [← check_ofRule, clean]
  rfl

theorem exists_entry_of_members {v : Value} {fs : Fields Value} (members : v.members? = some fs)
    {name : String} {w : Value} (inside : (name, w) ∈ fs) :
    ∃ e ∈ v.entries?.getD [], e.1.text? = some name := by
  cases v with
  | object gs =>
    cases members
    exact ⟨(.str name, w), List.mem_map_of_mem inside, rfl⟩
  | mapping ks ws =>
    cases members
    obtain ⟨e, among, here⟩ := List.mem_filterMap.1 inside
    obtain ⟨other, text, same⟩ := Option.map_eq_some_iff.1 here
    cases same
    exact ⟨e, among, text⟩
  | _ => cases members

theorem mem_keys_of_knowsKeys {cs : Fields Rule} {v : Value} {fs : Fields Value}
    (known : Rule.knowsKeys cs v = true) (members : v.members? = some fs) {name : String}
    {w : Value} (inside : (name, w) ∈ fs) : name ∈ cs.keys := by
  obtain ⟨e, among, text⟩ := exists_entry_of_members members inside
  have declared := List.all_eq_true.1 known e among
  simpa [text] using declared

theorem complaints_of_memberComplaints [CharacterNames] {a : Bool} {cs : Fields Rule}
    {fs : Fields Value}
    (clean : Rule.memberComplaints a cs fs = []) {name : String} {c : Rule} {w : Value}
    (child : cs.get? name = some c) (found : fs.get? name = some w) : c.complaints a w = [] := by
  induction cs with
  | nil => cases child
  | cons e rest ih =>
    obtain ⟨other, d⟩ := e
    rw [Rule.memberComplaints, List.append_eq_nil_iff] at clean
    rw [Fields.get?_cons] at child
    split at child
    next same =>
      cases child
      subst same
      rw [found] at clean
      exact List.map_eq_nil_iff.1 clean.1
    next => exact ih clean.2 child

theorem get?_membersOf_ofFields [CharacterNames] (a : Bool) (cs : Fields Rule) (name : String) :
    Fields.get? (membersOf (ofFields a cs)) name =
      (cs.get? name).map fun c => ofDocument (ofRule a c) := by
  induction cs with
  | nil => rfl
  | cons e rest ih =>
    obtain ⟨other, c⟩ := e
    rw [ofFields, membersOf, Fields.get?_cons, Fields.get?_cons]
    split
    · rfl
    · exact ih

/-- Data without a complaint has nothing at a path that the tree misses. -/
theorem lacks_of_misses [CharacterNames] {names : List String} {r : Rule} {v : Value}
    (misses : r.Misses names)
    (clean : r.complaints false v = []) : v.Lacks names := by
  induction names generalizing r v with
  | nil => exact misses
  | cons name rest ih =>
    obtain ⟨f, items, children⟩ := r
    obtain ⟨object, below⟩ := misses
    replace object : f.type = .object := object
    unfold Rule.complaints at clean
    rw [object] at clean
    cases members : v.members? with
    | none =>
      simp only [members] at clean
      cases clean
    | some fs =>
      simp only [members, List.append_eq_nil_iff, Bool.false_or] at clean
      obtain ⟨⟨present, -⟩, closed⟩ := clean
      have known : Rule.knowsKeys (children.getD []) v = true := by
        by_contra unknown
        simp [Rule.insist, unknown] at closed
      refine ⟨fs, members, ?_⟩
      intro w found
      have declared := mem_keys_of_knowsKeys known members (Fields.mem_of_get? found)
      obtain ⟨⟨_, c⟩, inside, rfl⟩ := List.mem_map.1 declared
      obtain ⟨c, child⟩ := Option.isSome_iff_exists.1 (Fields.contains_iff.2 ⟨c, inside⟩)
      apply ih (below c child)
      cases children with
      | none => cases child
      | some cs => exact complaints_of_memberComplaints present child found

/-- The document of an object rule is that of an object with the children as its properties. -/
theorem exists_keywords_of_object [CharacterNames] (a : Bool) {r : Rule}
    (object : r.type = .object) :
    ∃ ks, ofDocument (ofRule a r) = .document ks ∧ Keyword.declared? ks = some .object ∧
      ∀ name, Fields.get? (Keyword.propertiesOf ks) name =
        (r.child? name).map fun c => ofDocument (ofRule a c) := by
  obtain ⟨f, items, children⟩ := r
  replace object : f.type = .object := object
  have document : ofRule a ⟨f, items, children⟩ = .object (objectKeywords a (ofChildren a children)
      (requiredNames (children.getD [])) ++ Rule.entry "default" f.default) := by
    rw [ofRule]
    simp only [object]
  refine ⟨_, by rw [document, ofDocument], rfl, ?_⟩
  intro name
  have properties : Keyword.propertiesOf (keywordsOf (objectKeywords a (ofChildren a children)
      (requiredNames (children.getD [])) ++ Rule.entry "default" f.default)) =
      membersOf (ofChildren a children) := rfl
  rw [properties]
  cases children with
  | none => rfl
  | some cs => exact get?_membersOf_ofFields a cs name

/-- Values that differ at a missed path alone are prepared alike. -/
theorem prepare_eq_of_differAt [CharacterNames] {h : Handling} (closed : h.allowUnknown = false)
    (a : Bool)
    {names : List String} {v w : Value} (differ : Value.DifferAt names v w) {r : Rule}
    (misses : r.Misses names) :
    prepare h (ofDocument (ofRule a r)) v = prepare h (ofDocument (ofRule a r)) w := by
  induction differ generalizing r with
  | @last name fs gs others =>
    obtain ⟨ks, document, type, property⟩ := exists_keywords_of_object a misses.1
    have unknown : Fields.get? (Keyword.propertiesOf ks) name = none := by
      rw [property]
      cases child : r.child? name with
      | none => rfl
      | some c => exact (misses.2 c child).elim
    rw [document, prepare_object h type, prepare_object h type,
      ← prepareMembers_erase closed unknown fs, others, prepareMembers_erase closed unknown gs]
  | @inner name names v w before after _ ih =>
    obtain ⟨ks, document, type, property⟩ := exists_keywords_of_object a misses.1
    have members : prepareMembers h (Keyword.propertiesOf ks) ((name, v) :: after) =
        prepareMembers h (Keyword.propertiesOf ks) ((name, w) :: after) := by
      cases child : r.child? name with
      | none =>
        have unknown : Fields.get? (Keyword.propertiesOf ks) name = none := by
          rw [property, child]
          rfl
        rw [prepareMembers_unknown closed unknown, prepareMembers_unknown closed unknown]
      | some c =>
        have known :
            Fields.get? (Keyword.propertiesOf ks) name = some (ofDocument (ofRule a c)) := by
          rw [property, child]
          rfl
        apply prepareMembers_congr _ rfl
        rw [prepareMember_known known, prepareMember_known known, ih (misses.2 c child)]
    rw [document, prepare_object h type, prepare_object h type,
      prepareMembers_append_congr before members]

end Wire

/-! ## Requests -/

namespace Request

/-- The validator of a schema is that of the adapted tree. -/
theorem exists_adapted_of_validator [CharacterNames] {env : Environment} {s : Subject}
    {overrides options : Value}
    {tree : Rule} {o : Overrides} {opts : ValidatorOptions} {c : Wire.Validator}
    (introspected : env.tree s = .ok tree) (readOverrides : Overrides.ofValue overrides = .ok o)
    (readOptions : ValidatorOptions.ofValue options = .ok opts)
    (derived : Request.validator env ⟨some s, overrides, options⟩ = .ok c) :
    ∃ adapted, o.apply tree = .ok adapted ∧
      c = ⟨Wire.Schema.ofDocument (Wire.ofTree opts.allowUnknown adapted), opts.handling⟩ := by
  unfold Request.validator Request.document Environment.derive at derived
  simp only [readOverrides, readOptions, introspected, bind, Except.bind] at derived
  cases key : o.key opts with
  | error e => simp only [key] at derived; cases derived
  | ok _ =>
    cases made : o.apply tree with
    | error e => simp only [key, made] at derived; cases derived
    | ok adapted =>
      simp only [key, made] at derived
      exact ⟨adapted, rfl, Wire.eq_of_compile derived⟩

end Request

namespace Registry

/-- **A removed field never reaches the handler.** Where unknown members are dropped, a removed leaf
with nothing appended at it, above or below has no value in accepted data, and payloads that differ
there alone are answered alike. -/
theorem built_removed [CharacterNames] {env : Environment} {s : Subject}
    {overrides options : Value} {tree : Rule}
    {o : Overrides} {opts : ValidatorOptions} {c : Wire.Validator} {path : String}
    (introspected : env.tree s = .ok tree) (named : tree.WellNamed)
    (readOverrides : Overrides.ofValue overrides = .ok o)
    (readOptions : ValidatorOptions.ofValue options = .ok opts) (closed : opts.allowUnknown = false)
    (answered : built env {} ⟨some s, overrides, options⟩ = .ok c)
    (leaf : (tree.flatten "").contains path = true) (removes : o.Removes path)
    (apart : ∀ other ∈ o.appended.keys, Incomparable (segments path) (segments other)) :
    (∀ payload data, c.validate payload = .ok (.accepted data) → data.Lacks (segments path)) ∧
      ∀ p q, Value.DifferAt (segments path) p q → c.validate p = c.validate q := by
  rw [Requests.built_fresh] at answered
  obtain ⟨adapted, made, rfl⟩ :=
    Request.exists_adapted_of_validator introspected readOverrides readOptions answered
  have misses := Rule.misses_root (Overrides.misses_of_removes named leaf removes apart made)
  rw [closed]
  constructor
  · intro payload data accepted
    have clean := (Wire.Validator.validate_accepted_iff.1 accepted).2
    exact Wire.lacks_of_misses misses (Wire.complaints_of_check clean)
  · intro p q differ
    exact Wire.Validator.validate_congr (Wire.prepare_eq_of_differAt closed false differ misses)

/-- One schema, of places with a latitude and a secret. -/
def secretPlaces : Environment :=
  let place : List (String × Descriptor) :=
    [("lat", .ofKind .number []), ("secret", .ofKind .string [])]
  ⟨[.document .null [("geo", { Descriptor.ofKind .embedded [] with block := some place })]], .ok 32⟩

section

attribute [local instance] CharacterNames.common

/-- The secret is excluded and a name with a default is appended beside it: a place that brings a
secret is accepted, and data has none. -/
theorem built_removed_secret :
    let s : Subject := ⟨0, true, .source ⟨0, "DocumentSchema", ""⟩⟩
    let name : Value := .object [("required", .bool false), ("default", .str "here")]
    let overrides : Value := .object
      [("exclude", .list [.str "geo.secret"]), ("append", .object [("geo.name", name)])]
    let place : Value := .object [("geo", .object [("secret", .int 1)])]
    ∃ c, built secretPlaces {} ⟨some s, overrides, .null⟩ = .ok c ∧
      (∃ data, c.validate place = .ok (.accepted data)) ∧
      (∀ payload data, c.validate payload = .ok (.accepted data) →
        data.Lacks (segments "geo.secret")) ∧
      ∀ p q, Value.DifferAt (segments "geo.secret") p q → c.validate p = c.validate q := by
  intro s name overrides place
  let lat : Rule := ⟨{ type := .number, required := some (.bool false) }, none, none⟩
  let secret : Rule := ⟨{ type := .string, required := some (.bool false) }, none, none⟩
  let geo : Rule := ⟨{ type := .object, required := some (.bool false) }, none,
    some [("lat", lat), ("secret", secret)]⟩
  let tree : Rule := ⟨Rule.empty.facets, none, some [("geo", geo)]⟩
  have introspected : secretPlaces.tree s = .ok tree := rfl
  have named : tree.WellNamed := by
    have segment : IsSegment "geo" ∧ IsSegment "lat" ∧ IsSegment "secret" := by decide
    simp [tree, geo, lat, secret, Rule.WellNamed, Rule.FieldsWellNamed, Fields.keys, segment]
  obtain ⟨wire, document, clean, kept⟩ :
      ∃ wire, Request.document secretPlaces ⟨some s, overrides, .null⟩ = .ok wire ∧
        (Wire.Metaschema.findings wire).isEmpty = true ∧
        (Wire.prepare ⟨false, false⟩ (Wire.Schema.ofDocument wire) place).toOption.any (fun data =>
          (Wire.check (Wire.Schema.ofDocument wire) data).isEmpty) = true :=
    ⟨_, rfl, by decide +kernel, by decide +kernel⟩
  have answered : built secretPlaces {} ⟨some s, overrides, .null⟩ =
      .ok ⟨Wire.Schema.ofDocument wire, ⟨false, false⟩⟩ := by
    rw [Requests.built_fresh, Request.validator, document]
    exact Wire.compile_of_clean _ clean
  have removed := built_removed introspected named rfl rfl rfl answered
    (show (tree.flatten "").contains "geo.secret" = true by decide +kernel) (.inl rfl)
    (by decide +kernel)
  refine ⟨_, answered, ?_, removed⟩
  cases prepared : Wire.prepare ⟨false, false⟩ (Wire.Schema.ofDocument wire) place with
  | error e => simp [prepared, Except.toOption] at kept
  | ok data =>
    exact ⟨data, Wire.Validator.validate_accepted_iff.2
      ⟨prepared, by simpa [prepared, Except.toOption] using kept⟩⟩

end

end Registry

end ShapeContract
