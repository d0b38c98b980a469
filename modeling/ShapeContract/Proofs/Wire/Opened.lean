import ShapeContract.Proofs.Wire.Conservative
import ShapeContract.Proofs.Wire.Undeclared

/-!
# Unknown members allowed

To allow unknown members changes the documents at every object, and the preparation of payloads.
The two keep in step: what is accepted without unknown members is accepted with them, and of the
data then is left, without the members that the schema does not declare, what it was before.
-/

set_option autoImplicit false

namespace ShapeContract.Wire

open Schema (ofDocument)

/-! ## The declared part of a value -/

namespace Schema

mutual

/-- The value without the members of objects that the schema does not declare. -/
def declaredPart : Schema → Value → Value
  | .always, v => v
  | .never, v => v
  | .document ks, v =>
    match Keyword.declared? ks, v with
    | some .object, .object fs =>
      .object (fs.filterMap fun e => (memberPart ks e.1 e.2).map fun w => (e.1, w))
    | some .array, .list vs => .list (vs.map (itemPart ks))
    | _, v => v
termination_by structural s => s

/-- The declared part of a member, if it is declared. -/
def memberPart : List Keyword → String → Value → Option Value
  | [], _, _ => none
  | k :: rest, name, v =>
    match memberPartOf k name v with
    | some part => part
    | none => memberPart rest name v
termination_by structural ks => ks

def memberPartOf : Keyword → String → Value → Option (Option Value)
  | .properties ps, name, v => some (memberPartAmong ps name v)
  | _, _, _ => none
termination_by structural k => k

def memberPartAmong : List (String × Schema) → String → Value → Option Value
  | [], _, _ => none
  | (other, s) :: rest, name, v =>
    if other = name then some (declaredPart s v) else memberPartAmong rest name v
termination_by structural ps => ps

/-- The declared part of an item. -/
def itemPart : List Keyword → Value → Value
  | [], v => v
  | k :: rest, v =>
    match itemPartOf k v with
    | some part => part
    | none => itemPart rest v
termination_by structural ks => ks

def itemPartOf : Keyword → Value → Option Value
  | .items s, v => some (declaredPart s v)
  | _, _ => none
termination_by structural k => k

end

/-- The declared members of an object, each without what is not declared below it. -/
def declaredMembers (ps : List (String × Schema)) (fs : Fields Value) : Fields Value :=
  fs.filterMap fun e => (Fields.get? ps e.1).map fun s => (e.1, s.declaredPart e.2)

theorem memberPartAmong_eq (ps : List (String × Schema)) (name : String) (v : Value) :
    memberPartAmong ps name v = (Fields.get? ps name).map fun s => s.declaredPart v := by
  induction ps with
  | nil => rfl
  | cons e rest ih =>
    obtain ⟨other, s⟩ := e
    rw [memberPartAmong, Fields.get?_cons]
    split
    · rfl
    · exact ih

/-- A member's declared part is read by the schema under its name, if there is one. -/
theorem memberPart_eq (ks : List Keyword) (name : String) (v : Value) :
    memberPart ks name v =
      (Fields.get? (Keyword.propertiesOf ks) name).map fun s => s.declaredPart v := by
  induction ks with
  | nil => rfl
  | cons k rest ih =>
    cases k with
    | properties ps => exact memberPartAmong_eq ps name v
    | _ => exact ih

theorem itemPart_eq (ks : List Keyword) (v : Value) :
    itemPart ks v = (Keyword.itemsOf? ks).elim v fun s => s.declaredPart v := by
  induction ks with
  | nil => rfl
  | cons k rest ih =>
    cases k with
    | items s => rfl
    | _ => exact ih

/-- Of an object only the declared members stay, each cut down in turn. -/
theorem declaredPart_object {ks : List Keyword} (type : Keyword.declared? ks = some .object)
    (fs : Fields Value) :
    declaredPart (.document ks) (.object fs) =
      .object (declaredMembers (Keyword.propertiesOf ks) fs) := by
  rw [declaredPart]
  · simp only [memberPart_eq, Option.map_map]
    rfl
  · exact type

/-- Of an array every element stays, cut down by the schema of elements. -/
theorem declaredPart_array {ks : List Keyword} (type : Keyword.declared? ks = some .array)
    (vs : List Value) :
    declaredPart (.document ks) (.list vs) =
      .list (vs.map fun v => (Keyword.itemsOf? ks).elim v fun s => s.declaredPart v) := by
  rw [declaredPart]
  · rw [funext (itemPart_eq ks)]
  · exact type

/-- A value without parts is its own declared part. -/
theorem declaredPart_atomic {ks : List Keyword} {v : Value} (atomic : Atomic ks v) :
    declaredPart (.document ks) v = v := by
  unfold Atomic at atomic
  rw [declaredPart]
  · rintro fs type rfl
    rwa [type] at atomic
  · rintro vs type rfl
    rwa [type] at atomic

/-- Cutting down goes member by member. -/
theorem declaredMembers_append (ps : List (String × Schema)) (fs gs : Fields Value) :
    declaredMembers ps (fs ++ gs) = declaredMembers ps fs ++ declaredMembers ps gs :=
  List.filterMap_append

/-- Declared members that are declared throughout stay as they are. -/
theorem declaredMembers_eq_self {ps : List (String × Schema)} {fs : Fields Value}
    (each : ∀ e ∈ fs, ∃ s, Fields.get? ps e.1 = some s ∧ s.declaredPart e.2 = e.2) :
    declaredMembers ps fs = fs := by
  have same : ∀ e ∈ fs, ((Fields.get? ps e.1).map fun s => (e.1, s.declaredPart e.2)) = some e := by
    intro e inside
    obtain ⟨s, property, part⟩ := each e inside
    rw [property, Option.map_some, part]
  rw [declaredMembers, List.filterMap_congr same, List.filterMap_some]

end Schema

/-! ## Two schemas in step -/

/-- A schema with unknown members refused, and the same with unknown members allowed. -/
structure Opens (s t : Schema) : Prop where
  default : s.default? = t.default?
  keyed : ∀ w, s.default? = some w → w.WellKeyed
  check : ∀ v, check s v = [] → check t v = []
  declared : ∀ v, v.WellKeyed → Wire.check s v = [] → t.declaredPart v = v
  prepare : ∀ coerces v d, v.WellKeyed → prepare ⟨coerces, false⟩ s v = .ok d →
    Wire.check s d = [] → ∃ d', Wire.prepare ⟨coerces, true⟩ t v = .ok d' ∧
      Wire.check t d' = [] ∧ t.declaredPart d' = d

/-- Preparing members succeeds when each kept one does, in order. -/
theorem prepareMembers_cons_ok_iff {h : Handling} {ps : List (String × Schema)} {e : String × Value}
    {fs out : Fields Value} (stays : keepsMember h ps e = true) :
    prepareMembers h ps (e :: fs) = .ok out ↔
      ∃ d rest, prepareMember h ps e = .ok d ∧ prepareMembers h ps fs = .ok rest ∧
        out = d :: rest := by
  unfold prepareMembers
  rw [List.filter_cons_of_pos stays, List.mapM_cons, Rule.bind_ok_iff]
  simp only [Rule.bind_ok_iff]
  constructor
  · rintro ⟨d, head, rest, tail, ⟨⟩⟩
    exact ⟨d, rest, head, tail, rfl⟩
  · rintro ⟨d, rest, head, tail, rfl⟩
    exact ⟨d, head, rest, tail, rfl⟩

section Object

variable {fields : Fields Rule}

/-- The properties of fields, closed or open. -/
def propertiesOf [CharacterNames] (a : Bool) (fields : Fields Rule) : List (String × Schema) :=
  fields.mapValues (schemaOf a)

theorem get?_propertiesOf [CharacterNames] (a : Bool) (fields : Fields Rule) (name : String) :
    Fields.get? (propertiesOf a fields) name = (fields.get? name).map (schemaOf a) :=
  Fields.get?_mapValues _ _ _

/-- Where the declared members are in step, so are the members that stay. -/
theorem exists_opened_members [CharacterNames]
    (each : ∀ e ∈ fields, Opens (schemaOf false e.2) (schemaOf true e.2))
    (coerces : Bool) {fs out : Fields Value} (values : ∀ e ∈ fs, e.2.WellKeyed)
    (done : prepareMembers ⟨coerces, false⟩ (propertiesOf false fields) fs = .ok out)
    (clean : ∀ name w r, (name, w) ∈ out → fields.get? name = some r →
      check (schemaOf false r) w = []) :
    ∃ out', prepareMembers ⟨coerces, true⟩ (propertiesOf true fields) fs = .ok out' ∧
      Schema.declaredMembers (propertiesOf true fields) out' = out ∧
      ∀ name w r, (name, w) ∈ out' → fields.get? name = some r →
        check (schemaOf true r) w = [] := by
  induction fs generalizing out with
  | nil =>
    cases done
    exact ⟨[], rfl, rfl, fun _ _ _ inside => nomatch inside⟩
  | cons e rest ih =>
    -- A member without a field is dropped by the closed schema and kept by the open one; with a
    -- field it stays in both.
    obtain ⟨name, v⟩ := e
    obtain ⟨value, later⟩ := List.forall_mem_cons.1 values
    have stays : keepsMember ⟨coerces, true⟩ (propertiesOf true fields) (name, v) = true := rfl
    cases field : fields.get? name with
    | none =>
      have closed : Fields.get? (propertiesOf false fields) name = none := by
        rw [get?_propertiesOf, field, Option.map_none]
      have unknown : Fields.get? (propertiesOf true fields) name = none := by
        rw [get?_propertiesOf, field, Option.map_none]
      rw [prepareMembers_unknown rfl closed] at done
      obtain ⟨out', opened, part, checked⟩ := ih later done clean
      refine ⟨(name, v) :: out', (prepareMembers_cons_ok_iff stays).2
        ⟨_, _, prepareMember_unknown unknown v, opened, rfl⟩, ?_, ?_⟩
      · rw [Schema.declaredMembers, List.filterMap_cons_none (by rw [unknown, Option.map_none])]
        exact part
      · intro other w r inside known
        rcases List.mem_cons.1 inside with same | among
        · cases same
          rw [field] at known
          cases known
        · exact checked other w r among known
    | some r =>
      have closed : Fields.get? (propertiesOf false fields) name = some (schemaOf false r) := by
        rw [get?_propertiesOf, field, Option.map_some]
      have known : Fields.get? (propertiesOf true fields) name = some (schemaOf true r) := by
        rw [get?_propertiesOf, field, Option.map_some]
      obtain ⟨⟨_, w⟩, tail, head, tailDone, rfl⟩ :=
        (prepareMembers_cons_ok_iff (keepsMember_of_property closed v)).1 done
      obtain ⟨rfl, prepared⟩ := prepareMember_ok_iff.1 head
      rw [closed] at prepared
      obtain ⟨out', opened, part, checked⟩ := ih later tailDone
        fun other u q inside => clean other u q (List.mem_cons_of_mem _ inside)
      obtain ⟨w', openedValue, valueClean, valuePart⟩ :=
        (each _ (Fields.mem_of_get? field)).prepare coerces v w value prepared
          (clean _ w r List.mem_cons_self field)
      have member : prepareMember ⟨coerces, true⟩ (propertiesOf true fields) (name, v) =
          .ok (name, w') := prepareMember_ok_iff.2 ⟨rfl, by rw [known]; exact openedValue⟩
      refine ⟨(name, w') :: out', (prepareMembers_cons_ok_iff stays).2
        ⟨_, _, member, opened, rfl⟩, ?_, ?_⟩
      · rw [Schema.declaredMembers, List.filterMap_cons_some (by rw [known, Option.map_some]),
          valuePart]
        exact congrArg _ part
      · intro other u q inside present
        rcases List.mem_cons.1 inside with same | among
        · cases same
          cases field.symm.trans present
          exact valueClean
        · exact checked other u q among present

/-- Closed and open, the same defaults are missing. -/
theorem missingDefaults_opened [CharacterNames]
    (each : ∀ e ∈ fields, Opens (schemaOf false e.2) (schemaOf true e.2))
    {ks ls : List Keyword} (closed : Keyword.propertiesOf ks = propertiesOf false fields)
    (opened : Keyword.propertiesOf ls = propertiesOf true fields) (fs : Fields Value) :
    missingDefaults ks fs = missingDefaults ls fs := by
  unfold missingDefaults
  rw [closed, opened, propertiesOf, propertiesOf, Fields.mapValues, Fields.mapValues,
    List.filterMap_map, List.filterMap_map]
  refine List.filterMap_congr fun e inside => ?_
  simp only [Function.comp_apply, (each e inside).default]

/-- A rewriting that keeps names or drops entries leaves the names in order. -/
theorem keys_filterMap_sublist {α β : Type} {g : String × α → Option (String × β)}
    (named : ∀ e d, g e = some d → d.1 = e.1) (fs : Fields α) :
    (Fields.keys (fs.filterMap g)).Sublist fs.keys := by
  induction fs with
  | nil => exact List.Sublist.refl _
  | cons e rest ih =>
    cases kept : g e with
    | none =>
      rw [List.filterMap_cons_none kept]
      exact ih.cons _
    | some d =>
      rw [List.filterMap_cons_some kept, Fields.keys, List.map_cons, named e d kept]
      exact ih.cons_cons _

/-- The names of missing defaults are those of properties. -/
theorem keys_missingDefaults_sublist (ks : List Keyword) (fs : Fields Value) :
    (Fields.keys (missingDefaults ks fs)).Sublist (Fields.keys (Keyword.propertiesOf ks)) := by
  refine keys_filterMap_sublist (fun e d filled => ?_) _
  split at filled
  next => cases filled
  next =>
    obtain ⟨v, -, same⟩ := Option.map_eq_some_iff.1 filled
    rw [← same]

/-- An object that is filled has every key once. -/
theorem nodup_filled {ks : List Keyword} {fs : Fields Value} (own : fs.keys.Nodup)
    (properties : (Fields.keys (Keyword.propertiesOf ks)).Nodup) :
    (Fields.keys (fs ++ missingDefaults ks fs)).Nodup := by
  rw [Fields.keys, List.map_append]
  refine List.nodup_append.2
    ⟨own, properties.sublist (keys_missingDefaults_sublist ks fs), ?_⟩
  intro name known other filled same
  obtain ⟨⟨_, v⟩, inside, rfl⟩ := List.mem_map.1 known
  obtain ⟨⟨_, w⟩, default, rfl⟩ := List.mem_map.1 filled
  obtain ⟨-, -, absent, -⟩ := mem_missingDefaults.1 default
  cases same
  rw [Fields.contains_iff.2 ⟨v, inside⟩] at absent
  cases absent

/-- An object without extras has declared members only. -/
theorem declared_of_extras {names : List String} {fs : Fields Value}
    (known : extras names (.object fs) = []) : ∀ e ∈ fs, e.1 ∈ names := by
  intro e inside
  have all := List.filter_eq_nil_iff.1 known (.str e.1, e.2) (List.mem_map_of_mem inside)
  simpa using all

theorem exists_field_of_mem {name : String} (named : name ∈ fields.keys) :
    ∃ r, fields.get? name = some r := by
  obtain ⟨⟨_, r⟩, inside, rfl⟩ := List.mem_map.1 named
  exact Option.isSome_iff_exists.1 (Fields.contains_iff.2 ⟨r, inside⟩)

theorem keys_propertiesOf [CharacterNames] (a : Bool) (fields : Fields Rule) :
    (propertiesOf a fields).map Prod.fst = fields.keys := by
  rw [propertiesOf, Fields.mapValues, List.map_map]
  rfl

variable {required : List String} {default : Option Value}

/-- What a closed object with each field in step says of a value that it accepts. -/
theorem field_of_check [CharacterNames] {fs : Fields Value}
    (clean : check (.object false (propertiesOf false fields) required default) (.object fs) = [])
    {name : String} {v : Value} {r : Rule} (present : fs.get? name = some v)
    (field : fields.get? name = some r) : check (schemaOf false r) v = [] := by
  refine check_member ?_ clean present
  rw [propertiesOf_object, get?_propertiesOf, field, Option.map_some]

/-- The step at an object that is checked. -/
theorem check_opened [CharacterNames]
    (each : ∀ e ∈ fields, Opens (schemaOf false e.2) (schemaOf true e.2)) {v : Value}
    (clean : check (.object false (propertiesOf false fields) required default) v = []) :
    check (.object true (propertiesOf true fields) required default) v = [] := by
  obtain ⟨fs, members, properties, names, -⟩ := check_object_eq_nil_iff.1 clean
  refine check_object_eq_nil_iff.2 ⟨fs, members, ?_, names, .inl rfl⟩
  intro name t inside w present
  obtain ⟨⟨_, r⟩, field, same⟩ := List.mem_map.1 inside
  cases same
  exact (each _ field).check w (properties _ _ (List.mem_map_of_mem field) w present)

/-- A closed object that is accepted has no part that is not declared. -/
theorem declaredPart_of_check [CharacterNames]
    (each : ∀ e ∈ fields, Opens (schemaOf false e.2) (schemaOf true e.2))
    {v : Value} (keyed : v.WellKeyed)
    (clean : check (.object false (propertiesOf false fields) required default) v = []) :
    (Schema.object true (propertiesOf true fields) required default).declaredPart v = v := by
  rcases atomic_or (objectSchema true (propertiesOf true fields) required ++ defaultKeyword default)
    v with ⟨fs, type, rfl⟩ | ⟨vs, type, -⟩ | atomic
  · obtain ⟨own, values⟩ := Value.wellKeyed_object_iff.1 keyed
    obtain ⟨_, -, -, -, known⟩ := check_object_eq_nil_iff.1 clean
    have known := known.resolve_left Bool.false_ne_true
    rw [keys_propertiesOf] at known
    rw [Schema.object, Schema.declaredPart_object type, propertiesOf_object,
      Schema.declaredMembers_eq_self]
    rintro ⟨name, w⟩ inside
    obtain ⟨r, field⟩ := exists_field_of_mem (declared_of_extras known _ inside)
    refine ⟨schemaOf true r, by rw [get?_propertiesOf, field, Option.map_some], ?_⟩
    have present := (Fields.get?_eq_some_iff own name w).2 inside
    exact (each _ (Fields.mem_of_get? field)).declared w (values _ inside)
      (field_of_check clean present field)
  · cases type
  · exact Schema.declaredPart_atomic atomic

/-- Of a filled open object the declared members are those of the closed one. -/
theorem declaredMembers_filled [CharacterNames]
    (each : ∀ e ∈ fields, Opens (schemaOf false e.2) (schemaOf true e.2))
    {out defaults : Fields Value} {out' : Fields Value}
    (part : Schema.declaredMembers (propertiesOf true fields) out' = out)
    (known : ∀ e ∈ defaults, ∃ r, fields.get? e.1 = some r ∧ e.2.WellKeyed ∧
      check (schemaOf false r) e.2 = []) :
    Schema.declaredMembers (propertiesOf true fields) (out' ++ defaults) = out ++ defaults := by
  rw [Schema.declaredMembers_append, part, Schema.declaredMembers_eq_self]
  intro e inside
  obtain ⟨r, field, keyed, clean⟩ := known e inside
  refine ⟨schemaOf true r, by rw [get?_propertiesOf, field, Option.map_some], ?_⟩
  exact (each _ (Fields.mem_of_get? field)).declared e.2 keyed clean

/-- An open object is accepted if what it is required to have, and each of its fields, is. -/
theorem check_opened_object [CharacterNames] (own : fields.keys.Nodup) {fs : Fields Value}
    (clean : ∀ name w r, (name, w) ∈ fs → fields.get? name = some r → check (schemaOf true r) w = [])
    (complete : ∀ name ∈ required, fs.contains name = true) :
    check (.object true (propertiesOf true fields) required default) (.object fs) = [] := by
  refine check_object_eq_nil_iff.2 ⟨fs, rfl, ?_, complete, .inl rfl⟩
  intro name t inside w present
  obtain ⟨⟨other, r⟩, field, same⟩ := List.mem_map.1 inside
  cases same
  exact clean other w r (Fields.mem_of_get? present) ((Fields.get?_eq_some_iff own _ _).2 field)

/-- The step at an object that is prepared. -/
theorem exists_opened_object [CharacterNames] (own : fields.keys.Nodup)
    (each : ∀ e ∈ fields, Opens (schemaOf false e.2) (schemaOf true e.2)) (coerces : Bool)
    {fs : Fields Value} {d : Value} (keyed : (Value.object fs).WellKeyed)
    (done : prepare ⟨coerces, false⟩
      (.object false (propertiesOf false fields) required default) (.object fs) = .ok d)
    (clean : check (.object false (propertiesOf false fields) required default) d = []) :
    ∃ d', prepare ⟨coerces, true⟩
        (.object true (propertiesOf true fields) required default) (.object fs) = .ok d' ∧
      check (.object true (propertiesOf true fields) required default) d' = [] ∧
      (Schema.object true (propertiesOf true fields) required default).declaredPart d' = d := by
  obtain ⟨ownFs, values⟩ := Value.wellKeyed_object_iff.1 keyed
  unfold Schema.object at done ⊢
  set ks := objectSchema false (propertiesOf false fields) required ++ defaultKeyword default
  set ls := objectSchema true (propertiesOf true fields) required ++ defaultKeyword default
  have closed : Keyword.declared? ks = some .object := rfl
  have open' : Keyword.declared? ls = some .object := rfl
  obtain ⟨out, members, rfl⟩ := (prepare_object_ok_iff closed).1 done
  have filled : (Fields.keys (out ++ missingDefaults ks out)).Nodup :=
    nodup_filled (nodup_prepareMembers ownFs members) (by
      rw [← keys_propertiesOf false fields] at own
      exact own)
  have checked : ∀ name w r, (name, w) ∈ out ++ missingDefaults ks out →
      fields.get? name = some r → check (schemaOf false r) w = [] := by
    intro name w r inside field
    exact field_of_check clean ((Fields.get?_eq_some_iff filled name w).2 inside) field
  obtain ⟨out', opened, part, openedClean⟩ := exists_opened_members each coerces values members
    fun name w r inside => checked name w r (List.mem_append_left _ inside)
  have defaults : missingDefaults ls out' = missingDefaults ks out := by
    have after : missingDefaults ls out' = missingDefaults ls fs := missingDefaults_prepareMembers opened
    rw [after, missingDefaults_prepareMembers members]
    exact (missingDefaults_opened each rfl rfl fs).symm
  have known : ∀ e ∈ missingDefaults ks out, ∃ r, fields.get? e.1 = some r ∧ e.2.WellKeyed ∧
      check (schemaOf false r) e.2 = [] := by
    rintro ⟨name, w⟩ inside
    obtain ⟨s, property, -, default⟩ := mem_missingDefaults.1 inside
    obtain ⟨⟨other, r⟩, field, same⟩ := List.mem_map.1 property
    cases same
    have present := (Fields.get?_eq_some_iff own other r).2 field
    exact ⟨r, present, (each _ field).keyed w default,
      checked other w r (List.mem_append_right _ inside) present⟩
  refine ⟨_, (prepare_object_ok_iff open').2 ⟨out', opened, rfl⟩, ?_, ?_⟩
  · rw [defaults]
    refine check_opened_object own ?_ ?_
    · intro name w r inside field
      rcases List.mem_append.1 inside with prepared | default
      · exact openedClean name w r prepared field
      · exact (each _ (Fields.mem_of_get? field)).check w
          (checked name w r (List.mem_append_right _ default) field)
    · intro name asked
      obtain ⟨_, same, -, complete, -⟩ := check_object_eq_nil_iff.1 clean
      cases same
      obtain ⟨w, inside⟩ := Fields.contains_iff.1 (complete name asked)
      apply Fields.contains_iff.2
      rcases List.mem_append.1 inside with prepared | default
      · rw [← part] at prepared
        obtain ⟨⟨_, w'⟩, among, here⟩ := List.mem_filterMap.1 prepared
        obtain ⟨t, -, same⟩ := Option.map_eq_some_iff.1 here
        cases same
        exact ⟨w', List.mem_append_left _ among⟩
      · exact ⟨w, List.mem_append_right _ default⟩
  · rw [defaults, Schema.declaredPart_object open']
    exact congrArg Value.object (declaredMembers_filled each part known)

end Object

/-! ## Objects, arrays, and values without parts -/

/-- Opening an object: what the closed schema accepts the open one accepts too, with the undeclared
members beside it. -/
theorem opens_object [CharacterNames] {fields : Fields Rule} {required : List String}
    {default : Option Value}
    (own : fields.keys.Nodup) (each : ∀ e ∈ fields, Opens (schemaOf false e.2) (schemaOf true e.2))
    (keyed : ∀ w, default = some w → w.WellKeyed) :
    Opens (.object false (propertiesOf false fields) required default)
      (.object true (propertiesOf true fields) required default) where
  default := by rw [default?_object, default?_object]
  keyed w declared := keyed w (by rwa [default?_object] at declared)
  check _ := check_opened each
  declared _ := declaredPart_of_check each
  prepare coerces v d keyed done clean := by
    rcases atomic_or (objectSchema false (propertiesOf false fields) required ++
      defaultKeyword default) v with ⟨fs, -, rfl⟩ | ⟨vs, type, -⟩ | atomic
    · exact exists_opened_object own each coerces keyed done clean
    · cases type
    · have opened : Atomic (objectSchema true (propertiesOf true fields) required ++
          defaultKeyword default) v := atomic
      rw [Schema.object, prepare_atomic _ atomic, coerced_object _ rfl] at done
      cases done
      refine ⟨v, ?_, check_opened each clean, declaredPart_of_check each keyed clean⟩
      rw [Schema.object, prepare_atomic _ opened, coerced_object _ rfl]

/-- A keyword on the number of items. -/
def Keyword.Counts (k : Keyword) : Prop := ∃ n, k = .minItems n ∨ k = .maxItems n

theorem counts_countKeywords [CharacterNames] (f : Facets) : ∀ k ∈ countKeywords f, k.Counts := by
  have entry : ∀ (name : String) (make : Number → Keyword) (b : Option Value),
      plain name = true → (∀ x, Keyword.ofPlain? name x = x.number?.map make) →
      ∀ k ∈ Schema.keywordsOf (Rule.entry name b), ∃ n, k = make n := by
    intro name make b word read k inside
    cases b with
    | none => cases inside
    | some x =>
      rw [Rule.entry, keywordsOf_plain word, read] at inside
      obtain ⟨n, -, same⟩ := Option.map_eq_some_iff.1 (Option.mem_toList.1 inside)
      exact ⟨n, same.symm⟩
  intro k inside
  rw [countKeywords, keywordsOf_append] at inside
  rcases List.mem_append.1 inside with least | most
  · obtain ⟨n, here⟩ := entry "minItems" .minItems f.minItems rfl (fun _ => rfl) k least
    exact ⟨n, .inl here⟩
  · obtain ⟨n, here⟩ := entry "maxItems" .maxItems f.maxItems rfl (fun _ => rfl) k most
    exact ⟨n, .inr here⟩

/-- The number of items is counted whatever they are. -/
theorem Keyword.Counts.check {k : Keyword} (counts : k.Counts) {vs ws : List Value}
    (alike : vs.length = ws.length) (clean : checkKeyword [] k (.list vs) = []) :
    checkKeyword [] k (.list ws) = [] := by
  obtain ⟨n, rfl | rfl⟩ := counts
  · change checkLeast "minItems" n vs.length _ = [] at clean
    change checkLeast "minItems" n ws.length _ = []
    simpa [checkLeast, demand, alike] using clean
  · change checkMost "maxItems" n vs.length _ = [] at clean
    change checkMost "maxItems" n ws.length _ = []
    simpa [checkMost, demand, alike] using clean

/-- Counts and defaults declare no properties. -/
theorem propertiesOf_counts {counts : List Keyword} (count : ∀ k ∈ counts, k.Counts)
    (default : Option Value) : Keyword.propertiesOf (counts ++ defaultKeyword default) = [] := by
  induction counts with
  | nil => cases default <;> rfl
  | cons k rest ih =>
    obtain ⟨⟨n, rfl | rfl⟩, later⟩ := List.forall_mem_cons.1 count
    · exact ih later
    · exact ih later

theorem default?_array {counts : List Keyword} (count : ∀ k ∈ counts, k.Counts) (s : Schema)
    (default : Option Value) : (Schema.array s counts default).default? = default := by
  change Keyword.default? (counts ++ defaultKeyword default) = default
  induction counts with
  | nil => cases default <;> rfl
  | cons k rest ih =>
    obtain ⟨⟨n, rfl | rfl⟩, later⟩ := List.forall_mem_cons.1 count
    · exact ih later
    · exact ih later

/-- Items in step, one by one. -/
theorem exists_opened_items {s t : Schema} (element : Opens s t) (coerces : Bool)
    {vs out : List Value} (keyed : ∀ v ∈ vs, v.WellKeyed)
    (done : vs.mapM (prepare ⟨coerces, false⟩ s) = .ok out) (clean : ∀ w ∈ out, check s w = []) :
    ∃ out', vs.mapM (prepare ⟨coerces, true⟩ t) = .ok out' ∧ (∀ w ∈ out', check t w = []) ∧
      out'.map t.declaredPart = out := by
  have each := mapM_ok_iff.1 done
  clear done
  induction each with
  | nil => exact ⟨[], rfl, List.forall_mem_nil _, rfl⟩
  | @cons v w vs out head _ ih =>
    obtain ⟨value, values⟩ := List.forall_mem_cons.1 keyed
    obtain ⟨first, others⟩ := List.forall_mem_cons.1 clean
    obtain ⟨w', opened, checked, part⟩ := element.prepare coerces v w value head first
    obtain ⟨out', openedRest, checkedRest, partRest⟩ := ih values others
    exact ⟨w' :: out', mapM_cons_ok opened openedRest, List.forall_mem_cons.2 ⟨checked, checkedRest⟩,
      by rw [List.map_cons, part, partRest]⟩

/-- Opening an array is opening its elements. -/
theorem opens_array {s t : Schema} {counts : List Keyword} {default : Option Value}
    (count : ∀ k ∈ counts, k.Counts) (element : Opens s t)
    (keyed : ∀ w, default = some w → w.WellKeyed) :
    Opens (.array s counts default) (.array t counts default) := by
  have noProperties := propertiesOf_counts count default
  have part : ∀ vs : List Value, (Schema.array t counts default).declaredPart (.list vs) =
      .list (vs.map t.declaredPart) := by
    intro vs
    rw [Schema.array, Schema.declaredPart_array rfl]
    rfl
  refine ⟨?_, ?_, ?_, ?_, ?_⟩
  · rw [default?_array count, default?_array count]
  · intro w declared
    rw [default?_array count] at declared
    exact keyed w declared
  · intro v clean
    obtain ⟨vs, rfl, items, counted⟩ := (check_array_eq_nil_iff noProperties _).1 clean
    exact (check_array_eq_nil_iff noProperties _).2
      ⟨vs, rfl, fun w inside => element.check w (items w inside), counted⟩
  · intro v keyed clean
    obtain ⟨vs, rfl, items, -⟩ := (check_array_eq_nil_iff noProperties _).1 clean
    have values := Value.wellKeyed_list_iff.1 keyed
    have same : ∀ w ∈ vs, t.declaredPart w = id w :=
      fun w inside => element.declared w (values w inside) (items w inside)
    rw [part, List.map_congr_left same, List.map_id]
  · intro coerces v d keyed done clean
    obtain ⟨out, rfl, items, counted⟩ := (check_array_eq_nil_iff noProperties _).1 clean
    unfold Schema.array at done
    rcases atomic_or ([.type .array, .items s] ++ counts ++ defaultKeyword default) v with
      ⟨fs, type, -⟩ | ⟨vs, -, rfl⟩ | atomic
    · cases type
    · obtain ⟨_, prepared, same⟩ := (prepare_array_ok_iff rfl).1 done
      cases same
      obtain ⟨out', opened, checked, parts⟩ :=
        exists_opened_items element coerces (Value.wellKeyed_list_iff.1 keyed) prepared items
      have alike : out.length = out'.length := by rw [← parts, List.length_map]
      refine ⟨.list out', ?_, ?_, ?_⟩
      · rw [Schema.array]
        exact (prepare_array_ok_iff rfl).2 ⟨out', opened, rfl⟩
      · exact (check_array_eq_nil_iff noProperties _).2
          ⟨out', rfl, checked, fun k inside => (count k inside).check alike (counted k inside)⟩
      · rw [part, parts]
    · rw [prepare_atomic _ atomic, coerced_array _ rfl] at done
      cases done
      exact atomic.elim

/-- A schema without parts is opened as it stands. -/
theorem Schema.Flat.opens {s : Schema} (flat : s.Flat)
    (keyed : ∀ w, s.default? = some w → w.WellKeyed) : Opens s s := by
  obtain ⟨ks, rfl, types⟩ := flat
  have atomic : ∀ v, Atomic ks v := by
    intro v
    rcases atomic_or ks v with ⟨fs, type, -⟩ | ⟨vs, type, -⟩ | atomic
    · rcases types _ type with other | other | other <;> cases other
    · rcases types _ type with other | other | other <;> cases other
    · exact atomic
  refine ⟨rfl, keyed, fun _ clean => clean, fun v _ _ => declaredPart_atomic (atomic v), ?_⟩
  intro coerces v d _ done clean
  refine ⟨d, ?_, clean, declaredPart_atomic (atomic d)⟩
  rwa [prepare_atomic _ (atomic v)] at done ⊢

/-- The emitted schemas of one rule, closed and open, at every depth. -/
theorem opens_schemaOf [CharacterNames] {r : Rule} (keyed : r.WellKeyed) :
    Opens (schemaOf false r) (schemaOf true r) := by
  induction r using Rule.inductByType with
  | object f items children isObject kids =>
    obtain ⟨default, -, named⟩ := keyed
    obtain ⟨own, each⟩ := Rule.childrenWellKeyed_iff.1 named
    rw [schemaOf_of_object _ isObject, schemaOf_of_object _ isObject]
    exact opens_object own (fun e inside => kids e inside (each e inside)) default
  | array f items children isArray element =>
    obtain ⟨default, inner, -⟩ := keyed
    rw [schemaOf_of_array _ isArray, schemaOf_of_array _ isArray]
    refine opens_array (counts_countKeywords f) ?_ default
    cases items with
    | none => exact Schema.Flat.opens ⟨[], rfl, fun _ none => nomatch none⟩ fun _ none => nomatch none
    | some r => exact element r rfl inner
  | flat r notObject notArray =>
    rw [schemaOf_of_flat true false notObject notArray]
    refine (flat_schemaOf false notObject notArray).opens fun w declared => ?_
    obtain ⟨f, items, children⟩ := r
    rw [default?_schemaOf_of_flat false notObject notArray] at declared
    exact keyed.1 w declared

namespace Origin

/-- **To allow unknown members only adds acceptance.** What is accepted while they are dropped is
accepted while they are kept, and the declared part of the data then is the data before, its keys in
the same order. -/
theorem validate_opened [CharacterNames] {s : Origin} (keyed : s.WellKeyed) {coerceTypes : Bool}
    {c : Validator}
    (built : s.validator ⟨coerceTypes, false⟩ = .ok c) {p d : Value} (payload : p.WellKeyed)
    (accepted : c.validate p = .ok (.accepted d)) :
    ∃ c' d', s.validator ⟨coerceTypes, true⟩ = .ok c' ∧ c'.validate p = .ok (.accepted d') ∧
      c'.schema.declaredPart d' = d := by
  obtain ⟨fields, required, own, each, validators⟩ := exists_fields keyed built
  obtain rfl : objectOf fields required ⟨coerceTypes, false⟩ = c :=
    Except.ok.inj ((validators _).symm.trans built)
  have opens : Opens (objectOf fields required ⟨coerceTypes, false⟩).schema
      (objectOf fields required ⟨coerceTypes, true⟩).schema :=
    opens_object own (fun e inside => opens_schemaOf (each e inside)) fun _ none => nomatch none
  obtain ⟨prepared, clean⟩ := Validator.validate_accepted_iff.1 accepted
  obtain ⟨d', opened, checked, part⟩ := opens.prepare coerceTypes p d payload prepared clean
  exact ⟨_, d', validators _, Validator.validate_accepted_iff.2 ⟨opened, checked⟩, part⟩

section

attribute [local instance] CharacterNames.common

/-- A place with a unit by default: its zip code and a role beside it are dropped, or kept. -/
theorem validate_opened_place :
    let city : Rule := ⟨{ type := .string, required := some (.bool true) }, none, none⟩
    let place : Rule := ⟨{ type := .object }, none, some [("city", city)]⟩
    let unit : Rule := ⟨{ type := .string, default := some (.str "m") }, none, none⟩
    let s : Origin := .tree ⟨{ type := .object }, none, some [("unit", unit), ("place", place)]⟩
    let p : Value := .object
      [("role", .null), ("place", .object [("zip", .int 1), ("city", .str "Pune")])]
    let d : Value := .object [("place", .object [("city", .str "Pune")]), ("unit", .str "m")]
    s.WellKeyed ∧ p.WellKeyed ∧ ∃ c, s.validator ⟨true, false⟩ = .ok c ∧
      c.validate p = .ok (.accepted d) ∧
      ∃ c' d', s.validator ⟨true, true⟩ = .ok c' ∧ c'.validate p = .ok (.accepted d') ∧
        c'.schema.declaredPart d' = d := by
  intro city place unit s p d
  have keyed : s.WellKeyed := by
    simp [s, city, place, unit, WellKeyed, Rule.WellKeyed, Rule.ItemsWellKeyed,
      Rule.ChildrenWellKeyed, Rule.FieldsWellKeyed, Fields.keys, Value.WellKeyed]
  have payload : p.WellKeyed := by
    simp [p, Value.WellKeyed, Value.FieldsWellKeyed, Fields.keys]
  obtain ⟨document, made, clean⟩ :
      ∃ document, s.document false = .ok document ∧ (Metaschema.findings document).isEmpty = true :=
    ⟨_, rfl, by decide +kernel⟩
  have built : s.validator ⟨true, false⟩ = .ok ⟨ofDocument document, ⟨true, false⟩⟩ :=
    validator_ok_iff.2 ⟨document, made, List.isEmpty_iff.1 clean, rfl⟩
  have accepted : Validator.validate ⟨ofDocument document, ⟨true, false⟩⟩ p = .ok (.accepted d) := by
    cases made
    exact Validator.validate_accepted_iff.2 ⟨rfl, by decide +kernel⟩
  exact ⟨keyed, payload, _, built, accepted, validate_opened keyed built payload accepted⟩

end

end Origin

end ShapeContract.Wire
