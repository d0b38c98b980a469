import ShapeContract.Proofs.Wire.Faithful
import ShapeContract.Proofs.Wire.Preparing
import ShapeContract.Proofs.Wire.Same

/-!
# The order of properties and of required names

An object is checked property by property, so with its properties and its required names in another
order it is found to break the same, in another order. Validators are the same if besides they
prepare payloads alike.
-/

set_option autoImplicit false

namespace ShapeContract.Wire

open Schema (keywordsOf ofDocument membersOf)

theorem checkAll_eq_flatMap (declared : List String) (ks : List Keyword) (v : Value) :
    checkAll declared ks v = ks.flatMap fun k => checkKeyword declared k v := by
  induction ks with
  | nil => rfl
  | cons k rest ih =>
    rw [checkAll, List.flatMap_cons, ih]

theorem checkProperties_eq_flatMap (ps : List (String × Schema)) (fs : Fields Value) :
    checkProperties ps fs = ps.flatMap fun e => match fs.get? e.1 with
      | some v => within e.1 e.2 (check e.2 v)
      | none => [] := by
  induction ps with
  | nil => rfl
  | cons e rest ih =>
    obtain ⟨name, s⟩ := e
    rw [checkProperties, ih]
    rfl

theorem mapM_text?_texts (names : List String) :
    (names.map Value.str).mapM Value.text? = some names := by
  induction names with
  | nil => rfl
  | cons name rest ih => simp [ih]

/-- The keywords that the document of an object is read as. -/
def objectSchema (allowUnknown : Bool) (ps : List (String × Schema)) (required : List String) :
    List Keyword :=
  [.type .object, .properties ps] ++ (if required.isEmpty then [] else [.required required]) ++
    [.additional (if allowUnknown then .always else .never)]

theorem ofDocument_objectKeywords [CharacterNames] (allowUnknown : Bool) (ps : Fields Value)
    (required : List String) :
    ofDocument (.object (objectKeywords allowUnknown ps (required.map .str))) =
      .document (objectSchema allowUnknown (membersOf ps) required) := by
  have names : keywordsOf (requiredEntry (required.map .str)) =
      if required.isEmpty then [] else [.required required] := by
    cases required with
    | nil => rfl
    | cons name rest =>
      change keywordsOf [("required", .list ((name :: rest).map Value.str))] = _
      rw [keywordsOf_plain rfl]
      change ((((name :: rest).map Value.str).mapM Value.text?).map Keyword.required).toList = _
      rw [mapM_text?_texts]
      rfl
  have leading : keywordsOf [("type", .str "object"), ("properties", .object ps)] =
      [.type .object, .properties (membersOf ps)] := by
    rw [keywordsOf_cons, keywordsOf_properties]
    rfl
  rw [ofDocument, objectKeywords, keywordsOf_append, keywordsOf_append, names, leading,
    keywordsOf_additional]
  rfl

theorem propertiesOf_objectSchema (allowUnknown : Bool) (ps : List (String × Schema))
    (required : List String) :
    Keyword.propertiesOf (objectSchema allowUnknown ps required) = ps := rfl

section Reordered

variable {ps qs : List (String × Schema)} {required others : List String}

theorem extras_perm {declared names : List String} (moved : declared.Perm names) (v : Value) :
    extras declared v = extras names v := by
  simp only [extras, moved.mem_iff]

theorem missing_perm (moved : required.Perm others) (fs : Fields Value) :
    (missing required fs).Perm (missing others fs) :=
  (moved.filter _).map _

/-- An object with properties and required names in another order finds the same violations. -/
theorem check_objectSchema (allowUnknown : Bool) (moved : ps.Perm qs) (renamed : required.Perm others)
    (v : Value) :
    (check (.document (objectSchema allowUnknown ps required)) v).Perm
      (check (.document (objectSchema allowUnknown qs others)) v) := by
  have properties : (checkKeyword (ps.map Prod.fst) (.properties ps) v).Perm
      (checkKeyword (qs.map Prod.fst) (.properties qs) v) := by
    simp only [checkKeyword]
    cases v.members? with
    | none => exact List.Perm.refl _
    | some fs =>
      simp only [checkProperties_eq_flatMap]
      exact moved.flatMap_right _
  have names : ((if required.isEmpty then [] else [Keyword.required required]).flatMap
      fun k => checkKeyword (ps.map Prod.fst) k v).Perm
      ((if others.isEmpty then [] else [Keyword.required others]).flatMap
        fun k => checkKeyword (qs.map Prod.fst) k v) := by
    rw [renamed.isEmpty_eq]
    split
    · exact List.Perm.refl _
    · simp only [List.flatMap_singleton, checkKeyword, Keyword.checkPlain]
      cases v.members? with
      | none => exact List.Perm.refl _
      | some fs => exact missing_perm renamed fs
  have additional : checkKeyword (ps.map Prod.fst)
      (.additional (if allowUnknown then .always else .never)) v =
      checkKeyword (qs.map Prod.fst) (.additional (if allowUnknown then .always else .never)) v := by
    have same := extras_perm (moved.map Prod.fst) v
    cases allowUnknown <;> simp only [checkKeyword, same, if_true, if_false, Bool.false_eq_true]
  simp only [check, propertiesOf_objectSchema, checkAll_eq_flatMap]
  simp only [objectSchema, List.flatMap_append, List.flatMap_cons, List.flatMap_nil, List.append_nil,
    additional]
  exact ((List.Perm.append_left _ properties).append names).append_right _

/-- Properties under which members are prepared alike and the same defaults are filled in. -/
structure PreparesAlike (ps qs : List (String × Schema)) : Prop where
  found : ∀ name, Fields.get? ps name = Fields.get? qs name
  defaults : ∀ present, missingDefaults [.properties ps] present =
    missingDefaults [.properties qs] present

theorem PreparesAlike.prepareMembers_eq (alike : PreparesAlike ps qs) (h : Handling)
    (fs : Fields Value) : prepareMembers h ps fs = prepareMembers h qs fs := by
  have kept : keepsMember h ps = keepsMember h qs := by
    funext e
    simp only [keepsMember, Fields.contains, alike.found]
  have prepared : prepareMember h ps = prepareMember h qs := by
    funext e
    simp only [prepareMember, alike.found]
  rw [prepareMembers, prepareMembers, kept, prepared]

theorem prepare_objectSchema (h : Handling) (alike : PreparesAlike ps qs) (allowUnknown : Bool)
    (v : Value) :
    prepare h (.document (objectSchema allowUnknown ps required)) v =
      prepare h (.document (objectSchema allowUnknown qs others)) v := by
  have defaults : ∀ present, missingDefaults (objectSchema allowUnknown ps required) present =
      missingDefaults (objectSchema allowUnknown qs others) present := alike.defaults
  rcases atomic_or (objectSchema allowUnknown ps required) v with ⟨fs, -, rfl⟩ | ⟨_, type, _⟩ | atomic
  · rw [prepare_object h rfl, prepare_object h rfl, propertiesOf_objectSchema,
      propertiesOf_objectSchema, alike.prepareMembers_eq]
    simp only [defaults]
  · cases type
  · have atomic' : Atomic (objectSchema allowUnknown qs others) v := atomic
    rw [prepare_atomic h atomic, prepare_atomic h atomic']
    rfl

end Reordered

/-- Validators are the same if they prepare alike and find the same in some order. -/
theorem sameValidator_of_perm {h : Handling} {s t : Schema}
    (prepares : ∀ v, prepare h s v = prepare h t v) (checks : ∀ v, (check s v).Perm (check t v)) :
    SameValidator ⟨s, h⟩ ⟨t, h⟩ := by
  intro payload
  simp only [Validator.judge, Validator.examine, Verdict.of, prepares payload]
  cases prepare h t payload with
  | error e => exact .failed e
  | ok d =>
    refine .done _ _ ?_
    have moved := checks d
    change SameVerdict (if (check s d).isEmpty then _ else _) (if (check t d).isEmpty then _ else _)
    rw [moved.isEmpty_eq]
    split
    · exact .accepted d d (Value.SameData.refl d)
    · refine .rejected _ _ fun field keyword => ?_
      constructor
      · rintro ⟨e, inside, same⟩
        exact ⟨e, (moved.map Violation.toFieldError).mem_iff.1 inside, same⟩
      · rintro ⟨e, inside, same⟩
        exact ⟨e, (moved.map Violation.toFieldError).mem_iff.2 inside, same⟩

/-- Documents with the same findings compile alike, if what they compile to is the same. -/
theorem sameOutcome_compile [CharacterNames] {h : Handling} {document other : Value}
    (findings : Metaschema.findings document = Metaschema.findings other)
    (same : SameValidator ⟨ofDocument document, h⟩ ⟨ofDocument other, h⟩) :
    SameOutcome SameValidator (compile h document).outcome (compile h other).outcome := by
  unfold compile
  rw [findings]
  split
  · exact .done _ _ same
  · exact .failed _
  · exact .failed _

/-- Objects with the same properties and required names in another order are one document. -/
theorem sameDocument_objectKeywords (allowUnknown : Bool) {ps qs : Fields Value}
    {required others : List Value} (moved : ps.Perm qs) (renamed : required.Perm others) :
    SameDocument (.object (objectKeywords allowUnknown ps required))
      (.object (objectKeywords allowUnknown qs others)) := by
  have properties : SameProperties (.object ps) (.object qs) :=
    ⟨qs, ps, rfl, moved, SameDocuments.refl ps⟩
  have names : SameKeywords
      (requiredEntry required ++ [("additionalProperties", .bool allowUnknown)])
      (requiredEntry others ++ [("additionalProperties", .bool allowUnknown)]) := by
    unfold requiredEntry
    rw [renamed.isEmpty_eq]
    split
    · exact SameKeywords.refl _
    · exact ⟨_, _, rfl, SameKeywords.refl _, Or.inr ⟨required, others, rfl, rfl, renamed⟩⟩
  exact ⟨_, rfl, _, _, rfl, ⟨_, _, rfl, names, properties⟩, rfl⟩

end ShapeContract.Wire
