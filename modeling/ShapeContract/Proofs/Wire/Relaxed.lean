import ShapeContract.Proofs.Thinned
import ShapeContract.Proofs.Wire.Origin
import ShapeContract.Proofs.Wire.Refilled

/-!
# Names that are no longer required

Two schemas that differ only in required names, some of which the second has no more, prepare
payloads alike and find the same wrong with them, but for those names where they are missing.
-/

set_option autoImplicit false

namespace ShapeContract.Wire

open Schema (ofDocument)

/-- A missing name at one of the paths. -/
def Violation.MissingAt (free : List String → Prop) (e : Violation) : Prop :=
  e.keyword = "required" ∧ e.writable = true ∧ free e.path

/-- The second schema asks for the same as the first, but for some names at the paths. -/
structure Relaxes (free : List String → Prop) (s t : Schema) : Prop where
  prepare : ∀ h v, prepare h s v = prepare h t v
  default : s.default? = t.default?
  documents : (∃ ks ls, s = .document ks ∧ t = .document ls) ∨ s = t
  check : ∀ v, Thinned (Violation.MissingAt free) (check s v) (check t v)

theorem Relaxes.refl (free : List String → Prop) (s : Schema) : Relaxes free s s :=
  ⟨fun _ _ => rfl, rfl, .inr rfl, fun _ => .refl _ _⟩

/-- Properties of the same names, in step. -/
def RelaxedProperties (free : List String → Prop) : List (String × Schema) → List (String × Schema) → Prop :=
  List.Forall₂ fun p q => p.1 = q.1 ∧ Relaxes (fun path => free (p.1 :: path)) p.2 q.2

section Properties

variable {free : List String → Prop} {ps qs : List (String × Schema)}

theorem RelaxedProperties.refl (free : List String → Prop) (ps : List (String × Schema)) :
    RelaxedProperties free ps ps := List.forall₂_same.2 fun _ _ => ⟨rfl, .refl _ _⟩

theorem RelaxedProperties.names (properties : RelaxedProperties free ps qs) :
    ps.map Prod.fst = qs.map Prod.fst := by
  induction properties with
  | nil => rfl
  | cons head _ ih => exact congrArg₂ List.cons head.1 ih

/-- A name has a property in both or in neither. -/
theorem RelaxedProperties.get? (properties : RelaxedProperties free ps qs) (name : String) :
    (Fields.get? ps name = none ∧ Fields.get? qs name = none) ∨
      ∃ s t, Fields.get? ps name = some s ∧ Fields.get? qs name = some t ∧
        Relaxes (fun path => free (name :: path)) s t := by
  induction properties with
  | nil => exact .inl ⟨rfl, rfl⟩
  | @cons p q _ _ head _ ih =>
    obtain ⟨other, s⟩ := p
    obtain ⟨_, t⟩ := q
    obtain ⟨rfl, relaxes⟩ := head
    rw [Fields.get?_cons, Fields.get?_cons]
    split
    next here =>
      subst here
      exact .inr ⟨s, t, rfl, rfl, relaxes⟩
    next => exact ih

theorem RelaxedProperties.prepareMembers (properties : RelaxedProperties free ps qs) (h : Handling)
    (fs : Fields Value) : prepareMembers h ps fs = prepareMembers h qs fs := by
  have keeps : keepsMember h ps = keepsMember h qs := by
    funext e
    unfold keepsMember Fields.contains
    rcases properties.get? e.1 with ⟨none, none'⟩ | ⟨s, t, first, second, -⟩
    · rw [none, none']
    · rw [first, second]
      rfl
  have member : prepareMember h ps = prepareMember h qs := by
    funext e
    unfold prepareMember
    rcases properties.get? e.1 with ⟨none, none'⟩ | ⟨s, t, first, second, relaxes⟩
    · rw [none, none']
    · rw [first, second, Option.elim_some, Option.elim_some, relaxes.prepare]
  rw [Wire.prepareMembers, Wire.prepareMembers, keeps, member]

theorem RelaxedProperties.missingDefaults (properties : RelaxedProperties free ps qs)
    {ks ls : List Keyword} (first : Keyword.propertiesOf ks = ps)
    (second : Keyword.propertiesOf ls = qs) (fs : Fields Value) :
    missingDefaults ks fs = missingDefaults ls fs := by
  unfold Wire.missingDefaults
  rw [first, second]
  clear first second
  induction properties with
  | nil => rfl
  | @cons p q _ _ head _ ih =>
    obtain ⟨_, s⟩ := p
    obtain ⟨_, t⟩ := q
    obtain ⟨rfl, relaxes⟩ := head
    rw [List.filterMap_cons, List.filterMap_cons, ih, relaxes.default]

theorem Violation.MissingAt.under {name : String} {e : Violation}
    (missing : e.MissingAt fun path => free (name :: path)) : (e.under name).MissingAt free := missing

theorem RelaxedProperties.checkProperties (properties : RelaxedProperties free ps qs)
    (fs : Fields Value) :
    Thinned (Violation.MissingAt free) (checkProperties ps fs) (checkProperties qs fs) := by
  induction properties with
  | nil => exact .nil
  | @cons p q _ _ head _ ih =>
    obtain ⟨name, s⟩ := p
    obtain ⟨_, t⟩ := q
    obtain ⟨rfl, relaxes⟩ := head
    rw [Wire.checkProperties, Wire.checkProperties]
    refine .append ?_ ih
    cases fs.get? name with
    | none => exact .nil
    | some v =>
      rcases relaxes.documents with ⟨ks, ls, rfl, rfl⟩ | rfl
      · exact (relaxes.check v).map _ fun _ => Violation.MissingAt.under
      · exact .refl _ _

theorem thinned_missing {names others : List String}
    (thinned : Thinned (fun name => free [name]) names others) (fs : Fields Value) :
    Thinned (Violation.MissingAt free) (missing names fs) (missing others fs) :=
  (thinned.filter _).map _ fun _ allowed => ⟨rfl, rfl, allowed⟩

/-- The step at an object: its properties in step, and some names no longer required. -/
theorem Relaxes.object (properties : RelaxedProperties free ps qs) {required others : List String}
    (names : Thinned (fun name => free [name]) required others) (a : Bool) (default : Option Value) :
    Relaxes free (.object a ps required default) (.object a qs others default) := by
  refine ⟨fun h v => ?_, ?_, .inl ⟨_, _, rfl, rfl⟩, fun v => ?_⟩
  · rcases atomic_or (objectSchema a ps required ++ defaultKeyword default) v with
      ⟨fs, -, rfl⟩ | ⟨vs, type, -⟩ | atomic
    · rw [Schema.object, Schema.object, prepare_object h rfl, prepare_object h rfl,
        propertiesOf_object, propertiesOf_object, properties.prepareMembers]
      simp only [properties.missingDefaults (propertiesOf_object a ps required default)
        (propertiesOf_object a qs others default)]
    · cases type
    · have same : Atomic (objectSchema a qs others ++ defaultKeyword default) v := atomic
      rw [Schema.object, Schema.object, prepare_atomic h atomic, prepare_atomic h same,
        coerced_object h rfl, coerced_object h rfl]
  · rw [default?_object, default?_object]
  · rw [check_object, check_object, properties.names]
    refine .append (.append (.refl _ _) ?_) (.refl _ _)
    cases v.members? with
    | none => exact .nil
    | some fs => exact .append (properties.checkProperties fs) (thinned_missing names fs)

end Properties

/-! ## Validators -/

theorem errors_verdict (d : Value) (es : List Violation) :
    (Verdict.of d es).errors = es.map Violation.toFieldError := by
  unfold Verdict.of
  cases es <;> rfl

namespace Relaxes

variable {free : List String → Prop} {s t : Schema}

theorem unwritable_iff (relaxes : Relaxes free s t) (d : Value) :
    (∃ e ∈ Wire.check s d, e.writable = false) ↔ ∃ e ∈ Wire.check t d, e.writable = false := by
  have all := (relaxes.check d).all_iff (q := fun e => e.writable = true) fun _ missing => missing.2.1
  simpa using not_congr all

/-- What is accepted stays accepted, with the same data. -/
theorem accepted (relaxes : Relaxes free s t) {h : Handling} {p d : Value}
    (accepted : Validator.validate ⟨s, h⟩ p = .ok (.accepted d)) :
    Validator.validate ⟨t, h⟩ p = .ok (.accepted d) := by
  obtain ⟨prepared, clean⟩ := Validator.validate_accepted_iff.1 accepted
  refine Validator.validate_accepted_iff.2 ⟨(relaxes.prepare h p).symm.trans prepared, ?_⟩
  have thinned := relaxes.check d
  rw [show Wire.check s d = [] from clean] at thinned
  exact thinned.eq_nil

/-- Every payload fails in one way, or has a verdict with the same errors but for missing names. -/
theorem verdicts (relaxes : Relaxes free s t) {P : FieldError → Prop}
    (allowed : ∀ e : Violation, e.MissingAt free → P e.toFieldError) (h : Handling) (p : Value) :
    (∃ e, Validator.validate ⟨s, h⟩ p = .error e ∧ Validator.validate ⟨t, h⟩ p = .error e) ∨
      ∃ before after, Validator.validate ⟨s, h⟩ p = .ok before ∧
        Validator.validate ⟨t, h⟩ p = .ok after ∧ Thinned P before.errors after.errors := by
  have same := relaxes.prepare h p
  cases prepared : Wire.prepare h s p with
  | error e =>
    exact .inl ⟨e, Validator.validate_of_error prepared,
      Validator.validate_of_error (same.symm.trans prepared)⟩
  | ok d =>
    -- The messages that fail to be written are not those of missing names, so both fail or none.
    have prepared' : Wire.prepare h t p = .ok d := same.symm.trans prepared
    by_cases unwritable : ∃ e ∈ Wire.check s d, e.writable = false
    · exact .inl ⟨_, Validator.validate_of_unwritable prepared unwritable,
        Validator.validate_of_unwritable prepared' ((relaxes.unwritable_iff d).1 unwritable)⟩
    · have writable := mt (relaxes.unwritable_iff d).2 unwritable
      refine .inr ⟨_, _, Validator.validate_of_writable prepared unwritable,
        Validator.validate_of_writable prepared' writable, ?_⟩
      rw [errors_verdict, errors_verdict]
      exact (relaxes.check d).map _ allowed

end Relaxes

end ShapeContract.Wire
