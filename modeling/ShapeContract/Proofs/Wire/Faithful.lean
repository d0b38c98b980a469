import ShapeContract.Proofs.Rule.Meaning
import ShapeContract.Wire.Emission
import ShapeContract.Wire.Validator

/-!
# Wire documents mean what rule trees mean

Checking a value against the document of a rule reports the complaints of the rule, in the same
order and at the same places. Every keyword of a document is matched with the facet it was written
from; the induction is on the rule, with element and child rules in step.
-/

set_option autoImplicit false

namespace ShapeContract.Wire

open Schema (keywordsOf ofDocument membersOf)

/-- A violation without its message. -/
def Violation.complaint (e : Violation) : Complaint := ⟨e.path, e.keyword⟩

@[simp] theorem Violation.complaint_under (step : String) (e : Violation) :
    (e.under step).complaint = e.complaint.under step := rfl

/-- What a list of keywords finds wrong with a value, without the messages. -/
def grievances (declared : List String) (ks : List Keyword) (v : Value) : List Complaint :=
  (checkAll declared ks v).map Violation.complaint

/-- What is demanded is complained of under its keyword if it does not hold. -/
theorem complaint_demand (holds : Bool) (keyword message : String) {quoted : List Value} :
    (demand holds keyword message quoted).map Violation.complaint = Rule.insist holds keyword := by
  cases holds <;> rfl

theorem keywordsOf_cons [CharacterNames] (name : String) (v : Value) (rest : Fields Value) :
    keywordsOf ((name, v) :: rest) = keywordsOf [(name, v)] ++ keywordsOf rest := by
  cases v <;> simp only [keywordsOf, List.append_nil]

/-- The keywords of a document are those of its entries, in order. -/
theorem keywordsOf_append [CharacterNames] (fs gs : Fields Value) :
    keywordsOf (fs ++ gs) = keywordsOf fs ++ keywordsOf gs := by
  induction fs with
  | nil => rfl
  | cons e rest ih =>
    obtain ⟨name, v⟩ := e
    rw [List.cons_append, keywordsOf_cons, ih, ← List.append_assoc, ← keywordsOf_cons]

/-- Whether the operand of a keyword has no parts that are schemas. -/
def plain (name : String) : Bool :=
  !(["properties", "additionalProperties", "items"].contains name)

/-- An entry without schemas inside is one keyword, or none if it is not known. -/
theorem keywordsOf_plain [CharacterNames] {name : String} (word : plain name = true) (x : Value) :
    keywordsOf [(name, x)] = (Keyword.ofPlain? name x).toList := by
  have other : name ≠ "properties" ∧ name ≠ "additionalProperties" ∧ name ≠ "items" := by
    simpa [plain] using word
  obtain ⟨properties, additional, items⟩ := other
  cases x <;>
    simp only [keywordsOf, if_neg properties, if_neg additional, if_neg items, List.append_nil]

theorem keywordsOf_items [CharacterNames] (fs : Fields Value) :
    keywordsOf [("items", .object fs)] = [.items (.document (keywordsOf fs))] := by
  simp [keywordsOf, ofDocument]

theorem keywordsOf_properties [CharacterNames] (ps : Fields Value) :
    keywordsOf [("properties", .object ps)] = [.properties (membersOf ps)] := by
  simp only [keywordsOf, Schema.propertiesOf, if_true, Option.toList, List.append_nil]

theorem keywordsOf_additional [CharacterNames] (allowUnknown : Bool) :
    keywordsOf [("additionalProperties", .bool allowUnknown)] =
      [.additional (if allowUnknown then .always else .never)] := by
  cases allowUnknown <;> rfl

theorem admits_string (v : Value) : TypeName.string.admits v = v.isText := by
  cases v <;> rfl

/-- Every mapping whose keys are texts counts as an object. -/
theorem admits_object (v : Value) : TypeName.object.admits v = v.members?.isSome := by
  cases v <;> rfl

section Facets

variable (declared : List String) (v : Value)

theorem grievances_cons (k : Keyword) (ks : List Keyword) :
    grievances declared (k :: ks) v =
      (checkKeyword declared k v).map Violation.complaint ++ grievances declared ks v :=
  List.map_append

theorem grievances_single (k : Keyword) :
    grievances declared [k] v = (checkKeyword declared k v).map Violation.complaint := by
  rw [grievances_cons]
  exact List.append_nil _

/-- Complaints about a value come keyword by keyword. -/
theorem grievances_keywords (ks ls : List Keyword) :
    grievances declared (ks ++ ls) v = grievances declared ks v ++ grievances declared ls v := by
  induction ks with
  | nil => rfl
  | cons k rest ih =>
    rw [List.cons_append, grievances_cons, grievances_cons, ih, List.append_assoc]

/-- Complaints about a value come entry by entry. -/
theorem grievances_append [CharacterNames] (fs gs : Fields Value) :
    grievances declared (keywordsOf (fs ++ gs)) v =
      grievances declared (keywordsOf fs) v ++ grievances declared (keywordsOf gs) v := by
  rw [keywordsOf_append, grievances_keywords]

/-- A plain keyword asks what it reads as; what cannot be read asks nothing. -/
theorem grievances_plain [CharacterNames] {name : String} (word : plain name = true) (x : Value) :
    grievances declared (keywordsOf [(name, x)]) v =
      (Keyword.ofPlain? name x).elim [] fun k =>
        (checkKeyword declared k v).map Violation.complaint := by
  rw [keywordsOf_plain word]
  cases Keyword.ofPlain? name x with
  | none => rfl
  | some k => exact grievances_single declared v k

/-- A keyword whose operand is a number asks what its number asks. -/
theorem grievances_limit [CharacterNames] {name : String} (k : Number → Keyword)
    (word : plain name = true)
    (read : ∀ x, Keyword.ofPlain? name x = x.number?.map k) (b : Option Value) :
    grievances declared (keywordsOf (Rule.entry name b)) v =
      (b.bind Value.number?).elim [] fun n =>
        (checkKeyword declared (k n) v).map Violation.complaint := by
  cases b with
  | none => rfl
  | some x =>
    refine (grievances_plain declared v word x).trans ?_
    rw [read, Option.bind_some]
    cases x.number? <;> rfl

/-- A default makes no complaint. -/
theorem grievances_default [CharacterNames] (d : Option Value) :
    grievances declared (keywordsOf (Rule.entry "default" d)) v = [] := by
  cases d <;> rfl

/-- The first keyword asks for the type. -/
theorem grievances_type [CharacterNames] (t : TypeName) (rest : Fields Value) :
    grievances declared (keywordsOf (("type", .str t.text) :: rest)) v =
      Rule.insist (t.admits v) "type" ++ grievances declared (keywordsOf rest) v := by
  have read : Keyword.ofPlain? "type" (.str t.text) = some (.type t) := by
    cases t <;> rfl
  have any : ([t].any fun s => s.admits v) = t.admits v := Bool.or_false _
  rw [keywordsOf_cons, grievances_keywords, grievances_plain declared v rfl, read, ← any]
  exact congrArg (· ++ _) (complaint_demand _ _ _)

/-- A least length is asked of texts only. -/
theorem grievances_minLength [CharacterNames] (b : Option Value) :
    grievances declared (keywordsOf (Rule.entry "minLength" b)) v =
      match v.text? with
      | some s => Rule.insist (Rule.reaches b (.int s.length)) "minLength"
      | none => [] := by
  rw [grievances_limit declared v .minLength rfl fun _ => rfl]
  unfold Rule.reaches
  cases b.bind Value.number? with
  | none => cases v.text? <;> rfl
  | some n =>
    change List.map _ (match v.text? with
      | some s => checkLeast "minLength" n s.length v
      | none => []) = _
    cases v.text? with
    | none => rfl
    | some s => exact complaint_demand _ _ _

/-- A greatest length is asked of texts only. -/
theorem grievances_maxLength [CharacterNames] (b : Option Value) :
    grievances declared (keywordsOf (Rule.entry "maxLength" b)) v =
      match v.text? with
      | some s => Rule.insist (Rule.staysWithin b (.int s.length)) "maxLength"
      | none => [] := by
  rw [grievances_limit declared v .maxLength rfl fun _ => rfl]
  unfold Rule.staysWithin
  cases b.bind Value.number? with
  | none => cases v.text? <;> rfl
  | some n =>
    change List.map _ (match v.text? with
      | some s => checkMost "maxLength" n s.length v
      | none => []) = _
    cases v.text? with
    | none => rfl
    | some s => exact complaint_demand _ _ _

/-- A pattern is asked of texts only, and an empty one of none. -/
theorem grievances_pattern [CharacterNames] (p : Option Value) :
    grievances declared (keywordsOf (Rule.entry "pattern" (p.filter Value.truthy))) v =
      match v.text? with
      | some s => Rule.insist (Rule.fits p s) "pattern"
      | none => [] := by
  unfold Rule.fits
  cases p.filter Value.truthy with
  | none => cases v.text? <;> rfl
  | some x =>
    refine (grievances_plain declared v rfl x).trans ?_
    change Option.elim (x.text?.bind fun s => (Pattern.compile {} s).toOption.map Keyword.pattern)
      [] _ = _
    rw [Option.bind_some]
    cases x.text? with
    | none => cases v.text? <;> rfl
    | some source =>
      simp only [Option.bind_some, Option.all_some]
      cases Pattern.compile {} source with
      | error e => cases v.text? <;> rfl
      | ok compiled =>
        change List.map _ (match v.text? with
          | some s => demand (Pattern.found compiled.node s) "pattern" _ _
          | none => []) = _
        cases v.text? with
        | none => rfl
        | some s => exact complaint_demand _ _ _

/-- A list of choices is asked of every value unless it is empty. -/
theorem grievances_enum [CharacterNames] (e : Option (List Value)) :
    grievances declared
        (keywordsOf (Rule.entry "enum" ((e.filter fun vs => !vs.isEmpty).map Value.list))) v =
      Rule.insist (Rule.allows e v) "enum" := by
  unfold Rule.allows
  cases e.filter fun vs => !vs.isEmpty with
  | none => rfl
  | some ws => exact (grievances_plain declared v rfl _).trans (complaint_demand _ _ _)

/-- A lower bound is asked of numbers only. -/
theorem grievances_minimum [CharacterNames] (b : Option Value) :
    grievances declared (keywordsOf (Rule.entry "minimum" b)) v =
      match v with
      | .int i => Rule.insist (Rule.reaches b (.int i)) "minimum"
      | .float x => Rule.insist (Rule.reaches b (.double x)) "minimum"
      | _ => [] := by
  rw [grievances_limit declared v .minimum rfl fun _ => rfl]
  unfold Rule.reaches
  cases b.bind Value.number? with
  | none => cases v <;> rfl
  | some n =>
    cases v with
    | int i => exact complaint_demand _ _ _
    | float x => exact complaint_demand _ _ _
    | _ => rfl

/-- An upper bound is asked of numbers only. -/
theorem grievances_maximum [CharacterNames] (b : Option Value) :
    grievances declared (keywordsOf (Rule.entry "maximum" b)) v =
      match v with
      | .int i => Rule.insist (Rule.staysWithin b (.int i)) "maximum"
      | .float x => Rule.insist (Rule.staysWithin b (.double x)) "maximum"
      | _ => [] := by
  rw [grievances_limit declared v .maximum rfl fun _ => rfl]
  unfold Rule.staysWithin
  cases b.bind Value.number? with
  | none => cases v <;> rfl
  | some n =>
    cases v with
    | int i => exact complaint_demand _ _ _
    | float x => exact complaint_demand _ _ _
    | _ => rfl

/-- A least number of elements is asked of lists only. -/
theorem grievances_minItems [CharacterNames] (b : Option Value) :
    grievances declared (keywordsOf (Rule.entry "minItems" b)) v =
      match v with
      | .list vs => Rule.insist (Rule.reaches b (.int vs.length)) "minItems"
      | _ => [] := by
  rw [grievances_limit declared v .minItems rfl fun _ => rfl]
  unfold Rule.reaches
  cases b.bind Value.number? with
  | none => cases v <;> rfl
  | some n =>
    cases v with
    | list vs => exact complaint_demand _ _ _
    | _ => rfl

/-- A greatest number of elements is asked of lists only. -/
theorem grievances_maxItems [CharacterNames] (b : Option Value) :
    grievances declared (keywordsOf (Rule.entry "maxItems" b)) v =
      match v with
      | .list vs => Rule.insist (Rule.staysWithin b (.int vs.length)) "maxItems"
      | _ => [] := by
  rw [grievances_limit declared v .maxItems rfl fun _ => rfl]
  unfold Rule.staysWithin
  cases b.bind Value.number? with
  | none => cases v <;> rfl
  | some n =>
    cases v with
    | list vs => exact complaint_demand _ _ _
    | _ => rfl

end Facets

section Scalars

variable (declared : List String) (f : Facets) (v : Value)

/-- The keywords of a text rule complain as the rule does. -/
theorem grievances_string [CharacterNames] :
    grievances declared (keywordsOf (stringKeywords f)) v = Rule.textComplaints f v := by
  simp only [stringKeywords, List.cons_append]
  refine (grievances_type declared v .string _).trans ?_
  simp only [grievances_append, grievances_minLength, grievances_maxLength, grievances_pattern,
    grievances_enum, Rule.textComplaints, admits_string]
  cases v.text? <;> simp

/-- The keywords of a number rule complain as the rule does. -/
theorem grievances_number [CharacterNames] :
    grievances declared (keywordsOf (numberKeywords f)) v = Rule.numberComplaints f v := by
  simp only [numberKeywords, List.cons_append]
  refine (grievances_type declared v .number _).trans ?_
  simp only [grievances_append, grievances_minimum, grievances_maximum, Rule.numberComplaints]
  cases v <;> simp [TypeName.admits, Rule.insist, Rule.rangeComplaints]

/-- The keyword of a rule for truth values complains as the rule does. -/
theorem grievances_boolean [CharacterNames] :
    grievances declared (keywordsOf [("type", .str "boolean")]) v = Rule.booleanComplaints v := by
  refine (grievances_type declared v .boolean []).trans ?_
  cases v <;> rfl

/-- The keywords of a date rule complain as the rule does. -/
theorem grievances_date [CharacterNames] :
    grievances declared (keywordsOf dateKeywords) v = Rule.momentComplaints v := by
  refine (grievances_type declared v .string [("format", .str "date-time")]).trans ?_
  rw [grievances_plain declared v rfl, admits_string]
  change Rule.insist v.text?.isSome "type" ++ List.map _ (match v.text? with
    | some s => demand (isMoment s) "format" _ _
    | none => []) = match v.text? with
    | some s => Rule.insist (isMoment s) "format"
    | none => Rule.insist false "type"
  cases v.text? with
  | none => rfl
  | some s => exact complaint_demand _ _ _

/-- The keywords of a rule for object identities complain as the rule does. -/
theorem grievances_objectId [CharacterNames] :
    grievances declared (keywordsOf objectIdKeywords) v = Rule.objectIdComplaints v := by
  refine (grievances_type declared v .string [("pattern", .str objectIdPattern)]).trans ?_
  have read : Keyword.ofPlain? "pattern" (.str objectIdPattern) =
      some (.pattern ⟨objectIdPattern, {}, Pattern.objectIdNode⟩) := by
    change (Pattern.compile {} objectIdPattern).toOption.map Keyword.pattern = _
    rw [Pattern.compile_objectIdPattern]
    rfl
  rw [grievances_plain declared v rfl, read, admits_string]
  change Rule.insist v.text?.isSome "type" ++ List.map _ (match v.text? with
    | some s => demand (Pattern.found Pattern.objectIdNode s) "pattern" _ _
    | none => []) = match v.text? with
    | some s => Rule.insist (Pattern.isObjectId s) "pattern"
    | none => Rule.insist false "type"
  cases v.text? with
  | none => rfl
  | some s =>
    change _ = Rule.insist (Pattern.isObjectId s) "pattern"
    rw [← Pattern.found_objectIdNode]
    exact complaint_demand _ _ _

end Scalars

section Containers

variable (declared : List String) (v : Value)

/-- The document of the elements is a mapping, with a rule for them or without. -/
theorem ofItems_object (allowUnknown : Bool) (items : Option Rule) :
    ∃ fs, ofItems allowUnknown items = .object fs := by
  cases items with
  | none => exact ⟨[], rfl⟩
  | some r =>
    obtain ⟨f, items, children⟩ := r
    exact ⟨_, by rw [ofItems, ofRule]⟩

/-- Complaints about elements are those of each element, under its index. -/
theorem grievances_items [CharacterNames] (allowUnknown : Bool) (items : Option Rule)
    (rest : Fields Value) :
    grievances declared (keywordsOf (("items", ofItems allowUnknown items) :: rest)) v =
      (match v with
        | .list vs => vs.zipIdx.flatMap fun e =>
            ((check (ofDocument (ofItems allowUnknown items)) e.1).map Violation.complaint).map
              (Complaint.under (Decimal.text e.2))
        | _ => []) ++ grievances declared (keywordsOf rest) v := by
  obtain ⟨fs, document⟩ := ofItems_object allowUnknown items
  rw [document, keywordsOf_cons, grievances_keywords, keywordsOf_items, grievances_single]
  cases v with
  | list vs =>
    change (vs.zipIdx.flatMap fun e => (check (.document (keywordsOf fs)) e.1).map
      (Violation.under (Decimal.text e.2))).map Violation.complaint ++ _ = _
    simp only [List.map_flatMap, List.map_map]
    rfl
  | _ => rfl

/-- Complaints about members are those of each member that is declared, under its name. -/
theorem grievances_properties [CharacterNames] (ps rest : Fields Value) :
    grievances declared (keywordsOf (("properties", .object ps) :: rest)) v =
      (match v.members? with
        | some fs => (checkProperties (membersOf ps) fs).map Violation.complaint
        | none => []) ++ grievances declared (keywordsOf rest) v := by
  rw [keywordsOf_cons, grievances_keywords, keywordsOf_properties, grievances_single]
  change List.map _ (match v.members? with
    | some fs => checkProperties (membersOf ps) fs
    | none => []) ++ _ = _
  cases v.members? <;> rfl

/-- Required names are texts. -/
theorem text?_requiredNames (cs : Fields Rule) :
    (requiredNames cs).mapM Value.text? = some ((cs.filter fun c => c.2.isRequired).map Prod.fst) := by
  induction cs with
  | nil => rfl
  | cons e rest ih =>
    obtain ⟨name, c⟩ := e
    by_cases required : c.isRequired <;> simp [requiredNames, required, ih]

/-- A required name that is missing is complained of, in the order of the rule. -/
theorem missing_requiredNames (cs : Fields Rule) (fs : Fields Value) :
    (missing ((cs.filter fun c => c.2.isRequired).map Prod.fst) fs).map Violation.complaint =
      Rule.absentComplaints cs fs := by
  simp only [missing, Rule.absentComplaints, List.filter_map, List.map_map, List.filter_filter]
  simp [Function.comp_def, Bool.and_comm, Violation.complaint]

/-- Required names are asked of mappings only. -/
theorem grievances_required [CharacterNames] (cs : Fields Rule) :
    grievances declared (keywordsOf (requiredEntry (requiredNames cs))) v =
      match v.members? with
      | some fs => Rule.absentComplaints cs fs
      | none => [] := by
  by_cases nameless : (requiredNames cs).isEmpty
  · have names := text?_requiredNames cs
    rw [List.isEmpty_iff.1 nameless] at names
    have nobody : (cs.filter fun c => c.2.isRequired).map Prod.fst = [] := by simpa using names
    have calm (fs : Fields Value) : Rule.absentComplaints cs fs = [] := by
      rw [← missing_requiredNames, nobody]
      rfl
    simp only [requiredEntry, nameless, if_true, calm]
    cases v.members? <;> rfl
  · have read : Keyword.ofPlain? "required" (.list (requiredNames cs)) = some (.required _) :=
      congrArg (Option.map Keyword.required) (text?_requiredNames cs)
    rw [requiredEntry, if_neg nameless, grievances_plain declared v rfl, read]
    change List.map _ (match v.members? with
      | some fs => missing _ fs
      | none => []) = _
    cases v.members? with
    | none => rfl
    | some fs => exact missing_requiredNames cs fs

/-- A closed object complains once of all members that are not declared. -/
theorem grievances_additional [CharacterNames] (allowUnknown : Bool) :
    grievances declared (keywordsOf [("additionalProperties", .bool allowUnknown)]) v =
      Rule.insist (allowUnknown || (extras declared v).isEmpty) "additionalProperties" := by
  rw [keywordsOf_additional, grievances_single]
  cases allowUnknown with
  | true => exact congrArg (List.map _) (List.flatMap_eq_nil_iff.2 fun _ _ => rfl)
  | false => exact complaint_demand _ _ _

end Containers

/-- Violations inside the document of a rule are moved down a step. -/
theorem within_ofRule [CharacterNames] (allowUnknown : Bool) (r : Rule) (step : String)
    (es : List Violation) :
    within step (ofDocument (ofRule allowUnknown r)) es = es.map (Violation.under step) := by
  obtain ⟨f, items, children⟩ := r
  rw [ofRule, ofDocument, within]

/-- The properties of an object have the names of its children, in order. -/
theorem keys_membersOf_ofFields [CharacterNames] (allowUnknown : Bool) (cs : Fields Rule) :
    (membersOf (ofFields allowUnknown cs)).map Prod.fst = cs.keys := by
  induction cs with
  | nil => rfl
  | cons e rest ih =>
    obtain ⟨name, c⟩ := e
    simpa [ofFields, membersOf, Fields.keys] using ih

/-- The declared names of an object's document are those of its children. -/
theorem declared_objectKeywords [CharacterNames] (allowUnknown : Bool)
    (children : Option (List (String × Rule)))
    (names : List Value) (rest : Fields Value) :
    (Keyword.propertiesOf (keywordsOf
      (objectKeywords allowUnknown (ofChildren allowUnknown children) names ++ rest))).map Prod.fst =
      Fields.keys (children.getD []) := by
  have type : Keyword.ofPlain? "type" (.str "object") = some (.type .object) := rfl
  cases children <;>
    simp [objectKeywords, keywordsOf, type, Keyword.propertiesOf, Schema.propertiesOf, ofChildren,
      keys_membersOf_ofFields]
  rfl

/-- There are no extras if all members are known to the rule. -/
theorem extras_isEmpty (cs : Fields Rule) (v : Value) :
    (extras cs.keys v).isEmpty = Rule.knowsKeys cs v := by
  rw [Bool.eq_iff_iff]
  simp [extras, Rule.knowsKeys, List.isEmpty_iff]

/-- The keywords of an object find its complaints, once those about its children are known. -/
theorem grievances_object [CharacterNames] (allowUnknown : Bool)
    (children : Option (List (String × Rule))) (v : Value)
    (present : ∀ fs, (checkProperties (membersOf (ofChildren allowUnknown children)) fs).map
      Violation.complaint = Rule.presentComplaints allowUnknown children fs) :
    grievances (Fields.keys (children.getD [])) (keywordsOf (objectKeywords allowUnknown
      (ofChildren allowUnknown children) (requiredNames (children.getD [])))) v =
      match v.members? with
      | some fs =>
        Rule.presentComplaints allowUnknown children fs ++
          Rule.absentComplaints (children.getD []) fs ++
          Rule.insist (allowUnknown || Rule.knowsKeys (children.getD []) v) "additionalProperties"
      | none => Rule.insist false "type" := by
  simp only [objectKeywords, List.cons_append, List.nil_append]
  refine (grievances_type _ v .object _).trans ?_
  rw [grievances_properties, grievances_append, grievances_required, grievances_additional,
    extras_isEmpty, admits_object]
  cases members : v.members? with
  | some fs => simp [present, Rule.insist]
  | none =>
    have keyless : v.entries? = none := by
      cases v <;> first | rfl | cases members
    simp [Rule.insist, Rule.knowsKeys, keyless]

/-- The keywords of an array find its complaints, once those about its items are known. -/
theorem grievances_array [CharacterNames] (allowUnknown : Bool) (declared : List String)
    (f : Facets)
    (items : Option Rule) (v : Value)
    (element : ∀ vs : List Value, (vs.zipIdx.flatMap fun e =>
      ((check (ofDocument (ofItems allowUnknown items)) e.1).map Violation.complaint).map
        (Complaint.under (Decimal.text e.2))) = Rule.itemComplaints allowUnknown items vs) :
    grievances declared (keywordsOf (arrayKeywords f (ofItems allowUnknown items))) v =
      match v with
      | .list vs => Rule.itemComplaints allowUnknown items vs ++ Rule.countComplaints f vs.length
      | _ => Rule.insist false "type" := by
  simp only [arrayKeywords, List.cons_append, List.nil_append]
  refine (grievances_type _ v .array _).trans ?_
  rw [grievances_items, grievances_append, grievances_minItems, grievances_maxItems]
  cases v with
  | list vs =>
    simp only [element, Rule.countComplaints]
    rfl
  | _ => simp [Rule.insist, TypeName.admits]

mutual

/-- Under the document of a rule a value is found to break what it breaks of the rule. -/
theorem check_ofRule [CharacterNames] (allowUnknown : Bool) : ∀ (r : Rule) (v : Value),
    (check (ofDocument (ofRule allowUnknown r)) v).map Violation.complaint =
      r.complaints allowUnknown v
  | ⟨f, items, children⟩, v => by
    have element := check_ofItems allowUnknown items
    have present := check_ofChildren allowUnknown children
    rw [ofRule, ofDocument, check]
    unfold Rule.complaints
    change grievances _ (keywordsOf _) v = _
    rw [grievances_append, grievances_default, List.append_nil]
    cases f.type with
    | object =>
      rw [declared_objectKeywords]
      exact grievances_object allowUnknown children v present
    | array => exact grievances_array allowUnknown _ f items v element
    | string => exact grievances_string _ f v
    | number => exact grievances_number _ f v
    | boolean => exact grievances_boolean _ v
    | date => exact grievances_date _ v
    | objectId => exact grievances_objectId _ v
    | mixed => rfl
    | buffer => rfl
termination_by structural r => r

/-- The elements of an array, each by the element rule. -/
theorem check_ofItems [CharacterNames] (allowUnknown : Bool) :
    ∀ (items : Option Rule) (vs : List Value),
    (vs.zipIdx.flatMap fun e =>
      ((check (ofDocument (ofItems allowUnknown items)) e.1).map Violation.complaint).map
        (Complaint.under (Decimal.text e.2))) = Rule.itemComplaints allowUnknown items vs
  | none, vs => by
    rw [Rule.itemComplaints]
    exact List.flatMap_eq_nil_iff.2 fun e _ => rfl
  | some r, vs => by
    rw [Rule.itemComplaints, ofItems]
    simp only [check_ofRule allowUnknown r]
termination_by structural items => items

/-- The members of an object by its children, if it has any. -/
theorem check_ofChildren [CharacterNames] (allowUnknown : Bool) :
    ∀ (children : Option (List (String × Rule))) (fs : Fields Value),
      (checkProperties (membersOf (ofChildren allowUnknown children)) fs).map Violation.complaint =
        Rule.presentComplaints allowUnknown children fs
  | none, fs => rfl
  | some cs, fs => by
    rw [ofChildren, Rule.presentComplaints]
    exact check_ofFields allowUnknown cs fs
termination_by structural children => children

/-- The members of an object, child by child. -/
theorem check_ofFields [CharacterNames] (allowUnknown : Bool) :
    ∀ (cs : List (String × Rule)) (fs : Fields Value),
    (checkProperties (membersOf (ofFields allowUnknown cs)) fs).map Violation.complaint =
      Rule.memberComplaints allowUnknown cs fs
  | [], fs => rfl
  | (name, c) :: rest, fs => by
    have tail := check_ofFields allowUnknown rest fs
    have head := check_ofRule allowUnknown c
    rw [ofFields, membersOf, checkProperties, Rule.memberComplaints, List.map_append, tail]
    cases fs.get? name with
    | none => rfl
    | some v =>
      simp only [within_ofRule, List.map_map]
      rw [← head v, List.map_map]
      rfl
termination_by structural cs => cs

end

/-- A document that compiles gives the validator of its keywords. -/
theorem eq_of_compile [CharacterNames] {h : Handling} {document : Value} {c : Validator}
    (compiled : (compile h document).outcome = .ok c) : c = ⟨ofDocument document, h⟩ := by
  unfold compile at compiled
  split at compiled
  · cases compiled
    rfl
  · cases compiled
  · cases compiled

/-- A document without findings compiles. -/
theorem compile_of_clean [CharacterNames] (h : Handling) {document : Value}
    (clean : (Metaschema.findings document).isEmpty = true) :
    (compile h document).outcome = .ok ⟨ofDocument document, h⟩ := by
  rw [List.isEmpty_iff] at clean
  simp [compile, clean]

/-- The errors of a verdict are what the check finds in the prepared payload. -/
theorem errors_judge (c : Validator) (payload : Value) :
    (c.judge payload).map Verdict.errors =
      (prepare c.handling c.schema payload).map fun d =>
        (check c.schema d).map Violation.toFieldError := by
  simp only [Validator.judge, Validator.examine, Verdict.of]
  cases prepare c.handling c.schema payload with
  | error e => rfl
  | ok d =>
    cases found : check c.schema d <;>
      simp [Except.map, found, Verdict.errors, bind, Except.bind, pure, Except.pure]

/-- **A validator reports what the tree asks.** The fields and keywords that the validator of a tree
tells, in their order, are the complaints of the tree about the prepared payload. -/
theorem judge_ofTree [CharacterNames] {h : Handling} {tree : Rule} {c : Validator}
    (compiled : (compile h (ofTree h.allowUnknown tree)).outcome = .ok c) (payload : Value) :
    (c.judge payload).map (fun verdict => verdict.errors.map fun e => (e.field, e.error)) =
      (prepare h c.schema payload).map fun d =>
        (tree.documentComplaints h.allowUnknown d).map fun e => (e.field, e.keyword) := by
  obtain rfl := eq_of_compile compiled
  have errors := errors_judge ⟨ofDocument (ofTree h.allowUnknown tree), h⟩ payload
  have meaning := check_ofRule h.allowUnknown ⟨Rule.empty.facets, none, some tree.kids⟩
  calc
    _ = ((Validator.judge ⟨ofDocument (ofTree h.allowUnknown tree), h⟩ payload).map
          Verdict.errors).map fun es => es.map fun e => (e.field, e.error) := by
      cases Validator.judge ⟨ofDocument (ofTree h.allowUnknown tree), h⟩ payload <;> rfl
    _ = _ := by
      rw [errors]
      cases prepare h (ofDocument (ofTree h.allowUnknown tree)) payload with
      | error e => rfl
      | ok d =>
        simp only [Except.map, Rule.documentComplaints, ← meaning d, List.map_map]
        rfl

section

attribute [local instance] CharacterNames.common

/-- A user with a required name and a list of scores, which takes a score that is a text and gives
no name. -/
theorem judge_ofTree_scores :
    let name : Rule := ⟨{ type := .string, required := some (.bool true) }, none, none⟩
    let scores : Rule := ⟨{ type := .array, minItems := some (.int 3) },
      some ⟨{ type := .number, max := some (.int 10) }, none, none⟩, none⟩
    let tree : Rule := ⟨{ type := .object }, none, some [("name", name), ("scores", scores)]⟩
    let c : Validator := ⟨ofDocument (ofTree false tree), ⟨false, false⟩⟩
    (compile ⟨false, false⟩ (ofTree false tree)).outcome = .ok c ∧
      ((c.judge (.object [("scores", .list [.str "high", .int 11])])).map
          fun verdict => verdict.errors.map fun e => (e.field, e.error)).toOption =
        some [("scores.0", "type"), ("scores.1", "maximum"), ("scores", "minItems"),
          ("name", "required")] := by
  intro name scores tree c
  have compiled : (compile ⟨false, false⟩ (ofTree false tree)).outcome = .ok c :=
    compile_of_clean _ (by decide +kernel)
  have found := congrArg Except.toOption (judge_ofTree compiled
    (.object [("scores", .list [.str "high", .int 11])]))
  exact ⟨compiled, found.trans (by decide +kernel)⟩

end

end ShapeContract.Wire
