import ShapeContract.Proofs.Wire.Origin
import ShapeContract.Proofs.Wire.Refilled

/-!
# Coercion changes nothing that is right

What a schema accepts as it is has the types that it asks for, so coercion leaves all of it alone:
a payload that is accepted without coercion is accepted with it, with the same data. A schema that
asks for integers is no such schema, for it takes a double without a fraction that coercion would
change; no document asks for them.
-/

set_option autoImplicit false

namespace ShapeContract.Wire

open Schema (ofDocument)

/-! ## Checked values, part by part -/

section Checked

variable {ks : List Keyword}

theorem checkKeyword_of_check {k : Keyword} {v : Value} (clean : check (.document ks) v = [])
    (inside : k ∈ ks) : checkKeyword ((Keyword.propertiesOf ks).map Prod.fst) k v = [] := by
  rw [check, checkAll_eq_flatMap] at clean
  exact List.flatMap_eq_nil_iff.1 clean k inside

/-- A checked value has the type that its schema asks for. -/
theorem admits_of_check {t : TypeName} {v : Value} (type : Keyword.declared? ks = some t)
    (clean : check (.document ks) v = []) : t.admits v = true := by
  obtain ⟨k, inside, here⟩ := List.exists_of_findSome?_eq_some type
  have keyword := checkKeyword_of_check clean inside
  cases k with
  | type u =>
    cases here
    have typed : checkTypes [t] v = [] := keyword
    simpa [checkTypes, demand] using typed
  | _ => cases here

theorem mem_properties {ks : List Keyword} {name : String} {s : Schema}
    (property : Fields.get? (Keyword.propertiesOf ks) name = some s) :
    .properties (Keyword.propertiesOf ks) ∈ ks := by
  induction ks with
  | nil => cases property
  | cons k rest ih =>
    cases k with
    | properties ps => exact List.mem_cons_self
    | _ => exact List.mem_cons_of_mem _ (ih property)

/-- The members of a checked object are checked under their properties. -/
theorem check_member {name : String} {s : Schema} {fs : Fields Value} {v : Value}
    (property : Fields.get? (Keyword.propertiesOf ks) name = some s)
    (clean : check (.document ks) (.object fs) = []) (present : fs.get? name = some v) :
    check s v = [] := by
  have keyword : checkProperties (Keyword.propertiesOf ks) fs = [] :=
    checkKeyword_of_check clean (mem_properties property)
  exact checkProperties_eq_nil_iff.1 keyword name s (Fields.mem_of_get? property) v present

/-- The items of a checked array are checked. -/
theorem check_item {s : Schema} {vs : List Value} (element : Keyword.itemsOf? ks = some s)
    (clean : check (.document ks) (.list vs) = []) : ∀ v ∈ vs, check s v = [] := by
  obtain ⟨k, inside, here⟩ := List.exists_of_findSome?_eq_some element
  have keyword := checkKeyword_of_check clean inside
  cases k with
  | items t =>
    cases here
    exact checkKeyword_items_eq_nil_iff.1 keyword
  | _ => cases here

end Checked

/-! ## Prepared members -/

section Members

variable {h : Handling} {ps : List (String × Schema)} {fs out : Fields Value}

/-- Prepared members keep their names. -/
theorem keys_prepareMembers (done : prepareMembers h ps fs = .ok out) :
    out.keys = (fs.filter (keepsMember h ps)).map Prod.fst := by
  have each := mapM_ok_iff.1 done
  clear done
  generalize fs.filter (keepsMember h ps) = kept at each ⊢
  induction each with
  | nil => rfl
  | cons head _ ih => exact congrArg₂ List.cons (prepareMember_ok_iff.1 head).1.symm ih

theorem nodup_prepareMembers (own : fs.keys.Nodup) (done : prepareMembers h ps fs = .ok out) :
    out.keys.Nodup := by
  rw [keys_prepareMembers done]
  exact own.sublist (List.filter_sublist.map _)

/-- A prepared member is found under its name in the prepared object. -/
theorem get?_filled (own : fs.keys.Nodup) (done : prepareMembers h ps fs = .ok out) {name : String}
    {v : Value} (inside : (name, v) ∈ out) (more : Fields Value) :
    Fields.get? (out ++ more) name = some v := by
  have first := (Fields.get?_eq_some_iff (nodup_prepareMembers own done) name v).2 inside
  clear inside done own
  induction out with
  | nil => cases first
  | cons e rest ih =>
    obtain ⟨other, w⟩ := e
    rw [Fields.get?_cons] at first
    rw [List.cons_append, Fields.get?_cons]
    split
    next here => rwa [if_pos here] at first
    next away =>
      rw [if_neg away] at first
      exact ih first

end Members

/-! ## Coercion -/

/-- Somewhere the schema asks for an integer alone. -/
inductive AsksInteger : Schema → Prop
  | here {ks : List Keyword} (type : Keyword.declared? ks = some .integer) :
      AsksInteger (.document ks)
  | member {ks : List Keyword} {name : String} {s : Schema}
      (type : Keyword.declared? ks = some .object)
      (property : Fields.get? (Keyword.propertiesOf ks) name = some s) (deep : AsksInteger s) :
      AsksInteger (.document ks)
  | item {ks : List Keyword} {s : Schema} (type : Keyword.declared? ks = some .array)
      (element : Keyword.itemsOf? ks = some s) (deep : AsksInteger s) : AsksInteger (.document ks)

theorem coerce_of_admits {t : TypeName} {v : Value} (whole : t ≠ .integer)
    (admits : t.admits v = true) : coerce t v = .ok v := by
  have settles : t.settles v = true := by
    cases t <;> first | exact admits | exact absurd rfl whole
  unfold coerce
  rw [if_pos settles]

/-- What is found as it should be is left as it is. -/
theorem coerced_of_check {h : Handling} {ks : List Keyword} {v : Value}
    (whole : Keyword.declared? ks ≠ some .integer) (clean : check (.document ks) v = []) :
    coerced h ks v = .ok v := by
  unfold coerced
  split
  next t _ type =>
    refine coerce_of_admits ?_ (admits_of_check type clean)
    rintro rfl
    exact whole type
  next => rfl

/-- What is prepared without coercion and found as it should be is prepared so with coercion. -/
def Conserves (a : Bool) (s : Schema) : Prop :=
  ∀ {v d : Value}, v.WellKeyed → prepare ⟨false, a⟩ s v = .ok d → check s d = [] →
    prepare ⟨true, a⟩ s v = .ok d

section Steps

variable {a : Bool} {ks : List Keyword}

/-- The step at an object. -/
theorem conserves_object (type : Keyword.declared? ks = some .object)
    (below : ∀ name s, Fields.get? (Keyword.propertiesOf ks) name = some s → Conserves a s)
    {fs : Fields Value} {d : Value} (keyed : (Value.object fs).WellKeyed)
    (done : prepare ⟨false, a⟩ (.document ks) (.object fs) = .ok d)
    (clean : check (.document ks) d = []) :
    prepare ⟨true, a⟩ (.document ks) (.object fs) = .ok d := by
  obtain ⟨own, values⟩ := Value.wellKeyed_object_iff.1 keyed
  obtain ⟨out, members, rfl⟩ := (prepare_object_ok_iff type).1 done
  refine (prepare_object_ok_iff type).2 ⟨out, mapM_ok_of_imp members ?_, rfl⟩
  rintro ⟨name, v⟩ source ⟨_, w⟩ inside prepared
  obtain ⟨rfl, value⟩ := prepareMember_ok_iff.1 prepared
  refine prepareMember_ok_iff.2 ⟨rfl, ?_⟩
  cases property : Fields.get? (Keyword.propertiesOf ks) name with
  | none => rwa [property] at value
  | some s =>
    rw [property] at value
    have checked := check_member property clean (get?_filled own members inside _)
    exact below name s property (values _ (List.mem_of_mem_filter source)) value checked

/-- The step at an array. -/
theorem conserves_array (type : Keyword.declared? ks = some .array)
    (below : ∀ s, Keyword.itemsOf? ks = some s → Conserves a s)
    {vs : List Value} {d : Value} (keyed : (Value.list vs).WellKeyed)
    (done : prepare ⟨false, a⟩ (.document ks) (.list vs) = .ok d)
    (clean : check (.document ks) d = []) :
    prepare ⟨true, a⟩ (.document ks) (.list vs) = .ok d := by
  obtain ⟨out, items, rfl⟩ := (prepare_array_ok_iff type).1 done
  refine (prepare_array_ok_iff type).2 ⟨out, mapM_ok_of_imp items ?_, rfl⟩
  intro v source w inside prepared
  cases element : Keyword.itemsOf? ks with
  | none => rwa [element] at prepared
  | some s =>
    rw [element] at prepared
    have checked := check_item element clean w inside
    exact below s element (Value.wellKeyed_list_iff.1 keyed v source) prepared checked

end Steps

/-- **Coercion leaves alone what is right without it**, under any schema that asks for no integer
alone. -/
theorem conserves_of_not_asksInteger (a : Bool) {s : Schema} (whole : ¬ AsksInteger s) :
    Conserves a s := by
  induction s using Schema.induct with
  | always => exact fun _ done _ => done
  | never => exact fun _ done _ => done
  | document ks properties items =>
    intro v d keyed done clean
    rcases atomic_or ks v with ⟨fs, type, rfl⟩ | ⟨vs, type, rfl⟩ | atomic
    · refine conserves_object type (fun name s property => ?_) keyed done clean
      exact properties name s property fun deep => whole (.member type property deep)
    · refine conserves_array type (fun s element => ?_) keyed done clean
      exact items s element fun deep => whole (.item type element deep)
    · -- Without coercion such a value is prepared as it is, so it is the checked one.
      rw [prepare_atomic _ atomic] at done ⊢
      cases done
      exact coerced_of_check (fun type => whole (.here type)) clean

/-! ## Documents ask for no integers -/

theorem not_asksInteger_object {a : Bool} {ps : List (String × Schema)} {required : List String}
    {default : Option Value} (below : ∀ e ∈ ps, ¬ AsksInteger e.2) :
    ¬ AsksInteger (.object a ps required default) := by
  rintro (type | ⟨type, property, deep⟩ | ⟨type, element, deep⟩)
  · cases type
  · exact below _ (Fields.mem_of_get? property) deep
  · cases type

theorem not_asksInteger_schemaOf [CharacterNames] (a : Bool) (r : Rule) :
    ¬ AsksInteger (schemaOf a r) := by
  induction r using Rule.inductByType with
  | object f items children isObject kids =>
    rw [schemaOf_of_object a isObject]
    exact not_asksInteger_object (List.forall_mem_map.2 kids)
  | array f items children isArray element =>
    rw [schemaOf_of_array a isArray]
    rintro (type | ⟨type, property, deep⟩ | ⟨type, same, deep⟩)
    · cases type
    · cases type
    · cases same
      cases items with
      | none =>
        rcases deep with type | ⟨type, property, deep⟩ | ⟨type, same, deep⟩
        all_goals cases type
      | some r => exact element r rfl deep
  | flat r notObject notArray =>
    obtain ⟨ks, document, types⟩ := flat_schemaOf a notObject notArray
    rw [document]
    rintro (type | ⟨type, property, deep⟩ | ⟨type, same, deep⟩)
    all_goals rcases types _ type with other | other | other <;> cases other

namespace Origin

/-- **Coercion is conservative.** A payload that is accepted without coercion is accepted with it,
with the same data. -/
theorem validate_coerced [CharacterNames] {s : Origin} (keyed : s.WellKeyed) {allowUnknown : Bool}
    {c : Validator}
    (built : s.validator ⟨false, allowUnknown⟩ = .ok c) {p d : Value} (payload : p.WellKeyed)
    (accepted : c.validate p = .ok (.accepted d)) :
    ∃ c', s.validator ⟨true, allowUnknown⟩ = .ok c' ∧ c'.validate p = .ok (.accepted d) := by
  obtain ⟨fields, required, -, -, validators⟩ := exists_fields keyed built
  obtain rfl : objectOf fields required ⟨false, allowUnknown⟩ = c :=
    Except.ok.inj ((validators _).symm.trans built)
  refine ⟨_, validators _, ?_⟩
  obtain ⟨prepared, clean⟩ := Validator.validate_accepted_iff.1 accepted
  have whole : ¬ AsksInteger (objectOf fields required ⟨true, allowUnknown⟩).schema := by
    refine not_asksInteger_object (List.forall_mem_map.2 fun e _ => ?_)
    exact not_asksInteger_schemaOf allowUnknown e.2
  exact Validator.validate_accepted_iff.2
    ⟨conserves_of_not_asksInteger allowUnknown whole payload prepared clean, clean⟩

section

attribute [local instance] CharacterNames.common

/-- A height and a list of flags: the height stays a double and the flags stay truth values. -/
theorem validate_coerced_height :
    let height : Rule := ⟨{ type := .number }, none, none⟩
    let flags : Rule := ⟨{ type := .array }, some ⟨{ type := .boolean }, none, none⟩, none⟩
    let s : Origin := .tree ⟨{ type := .object }, none, some [("height", height), ("flags", flags)]⟩
    let p : Value := .object
      [("flags", .list [.bool true, .bool false]), ("height", .float (Double.zero false))]
    s.WellKeyed ∧ p.WellKeyed ∧ ∃ c, s.validator ⟨false, false⟩ = .ok c ∧
      c.validate p = .ok (.accepted p) ∧
      ∃ c', s.validator ⟨true, false⟩ = .ok c' ∧ c'.validate p = .ok (.accepted p) := by
  intro height flags s p
  have keyed : s.WellKeyed := by
    simp [s, height, flags, WellKeyed, Rule.WellKeyed, Rule.ItemsWellKeyed, Rule.ChildrenWellKeyed,
      Rule.FieldsWellKeyed, Fields.keys]
  have payload : p.WellKeyed := by
    simp [p, Value.WellKeyed, Value.AllWellKeyed, Value.FieldsWellKeyed, Fields.keys]
  obtain ⟨d, made, clean⟩ : ∃ d, s.document false = .ok d ∧ (Metaschema.findings d).isEmpty = true :=
    ⟨_, rfl, by decide +kernel⟩
  have built : s.validator ⟨false, false⟩ = .ok ⟨ofDocument d, ⟨false, false⟩⟩ :=
    validator_ok_iff.2 ⟨d, made, List.isEmpty_iff.1 clean, rfl⟩
  have accepted : Validator.validate ⟨ofDocument d, ⟨false, false⟩⟩ p = .ok (.accepted p) := by
    cases made
    exact Validator.validate_accepted_iff.2 ⟨rfl, by decide +kernel⟩
  exact ⟨keyed, payload, _, built, accepted, validate_coerced keyed built payload accepted⟩

end

end Origin

end ShapeContract.Wire
