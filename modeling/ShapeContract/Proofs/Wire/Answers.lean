import ShapeContract.Proofs.Wire.Coercing
import ShapeContract.Proofs.Wire.Preparing

/-!
# Which payloads are answered

A validator answers with a verdict, or it fails in one way: a number with too many digits is
coerced, or a message would quote one. Any other payload has a verdict, which either accepts
without an error or rejects with one.
-/

set_option autoImplicit false

namespace ShapeContract.Wire

/-- Somewhere in the value a number with too many digits stands where another type is wanted. -/
inductive MeetsOverlong : Schema → Value → Prop
  | here {ks : List Keyword} {t : TypeName} {v : Value} (type : Keyword.declared? ks = some t)
      (long : t.overlong v = true) : MeetsOverlong (.document ks) v
  | member {ks : List Keyword} {fs : Fields Value} {name : String} {s : Schema} {v : Value}
      (type : Keyword.declared? ks = some .object) (inside : (name, v) ∈ fs)
      (property : Fields.get? (Keyword.propertiesOf ks) name = some s) (deep : MeetsOverlong s v) :
      MeetsOverlong (.document ks) (.object fs)
  | item {ks : List Keyword} {vs : List Value} {s : Schema} {v : Value}
      (type : Keyword.declared? ks = some .array) (inside : v ∈ vs)
      (element : Keyword.itemsOf? ks = some s) (deep : MeetsOverlong s v) :
      MeetsOverlong (.document ks) (.list vs)

section Preparation

variable {h : Handling}

theorem atomic_of_overlong {ks : List Keyword} {t : TypeName} {v : Value}
    (long : t.overlong v = true) : Atomic ks v := by
  unfold Atomic
  split
  next => cases t <;> cases long
  next => cases t <;> cases long
  next => trivial

/-- A number with too many digits anywhere ends the preparation. -/
theorem prepare_ne_ok_of_meetsOverlong (coerces : h.coerceTypes = true) {s : Schema} {v : Value}
    (meets : MeetsOverlong s v) : ∀ d, prepare h s v ≠ .ok d := by
  induction meets with
  | @here ks t v type long =>
    intro d done
    rw [prepare_atomic h (atomic_of_overlong long)] at done
    simp only [coerced, coerces, type, coerce_overlong long] at done
    cases done
  | @member ks fs name s v type inside property _ ih =>
    intro d done
    obtain ⟨out, members, -⟩ := (prepare_object_ok_iff type).1 done
    obtain ⟨e, -, here⟩ := exists_of_mapM_ok members (mem_kept property inside)
    rw [prepareMember_known property] at here
    cases value : prepare h s v with
    | error _ => rw [value] at here; cases here
    | ok w => exact ih w value
  | @item ks vs s v type inside element _ ih =>
    intro d done
    obtain ⟨out, items, -⟩ := (prepare_array_ok_iff type).1 done
    obtain ⟨w, -, here⟩ := exists_of_mapM_ok items inside
    rw [element] at here
    exact ih w here

/-- An object whose preparation fails has a declared member whose preparation fails. -/
theorem exists_member_of_prepare_error {ks : List Keyword} {fs : Fields Value} {e : Failure}
    (type : Keyword.declared? ks = some .object)
    (fails : prepare h (.document ks) (.object fs) = .error e) :
    ∃ name s v, (name, v) ∈ fs ∧ Fields.get? (Keyword.propertiesOf ks) name = some s ∧
      prepare h s v = .error e := by
  rw [prepare_object h type] at fails
  cases members : prepareMembers h (Keyword.propertiesOf ks) fs with
  | ok out => rw [members] at fails; cases fails
  | error e' =>
    rw [members] at fails
    cases fails
    obtain ⟨⟨name, v⟩, source, here⟩ := exists_of_mapM_error members
    cases property : Fields.get? (Keyword.propertiesOf ks) name with
    | none => rw [prepareMember_unknown property] at here; cases here
    | some s =>
      rw [prepareMember_known property] at here
      cases value : prepare h s v with
      | ok w => rw [value] at here; cases here
      | error e'' =>
        rw [value] at here
        cases here
        exact ⟨name, s, v, List.mem_of_mem_filter source, property, value⟩

/-- An array whose preparation fails has an element whose preparation fails. -/
theorem exists_item_of_prepare_error {ks : List Keyword} {vs : List Value} {e : Failure}
    (type : Keyword.declared? ks = some .array)
    (fails : prepare h (.document ks) (.list vs) = .error e) :
    ∃ s, ∃ v ∈ vs, Keyword.itemsOf? ks = some s ∧ prepare h s v = .error e := by
  rw [prepare_array h type] at fails
  cases element : Keyword.itemsOf? ks with
  | none =>
    rw [element] at fails
    have stay : vs.mapM (fun v => (.ok v : Except Failure Value)) = .ok vs :=
      mapM_ok_iff.2 (List.forall₂_same.2 fun _ _ => rfl)
    simp only [Option.elim_none, stay] at fails
    cases fails
  | some s =>
    simp only [element, Option.elim_some] at fails
    cases items : vs.mapM (prepare h s) with
    | ok out => rw [items] at fails; cases fails
    | error e' =>
      rw [items] at fails
      cases fails
      obtain ⟨v, inside, here⟩ := exists_of_mapM_error items
      exact ⟨s, v, inside, rfl, here⟩

/-- Nothing else does, and only if values are coerced. -/
theorem meetsOverlong_of_prepare_error {s : Schema} : ∀ {v : Value} {e : Failure},
    prepare h s v = .error e → e = .valueMisuse ∧ h.coerceTypes = true ∧ MeetsOverlong s v := by
  induction s using Schema.induct with
  | always => intro v e fails; cases fails
  | never => intro v e fails; cases fails
  | document ks properties items =>
    intro v e fails
    rcases atomic_or ks v with ⟨fs, type, rfl⟩ | ⟨vs, type, rfl⟩ | atomic
    · obtain ⟨name, s, v, inside, property, below⟩ := exists_member_of_prepare_error type fails
      obtain ⟨kind, coerces, deep⟩ := properties name s property below
      exact ⟨kind, coerces, .member type inside property deep⟩
    · obtain ⟨s, v, inside, element, below⟩ := exists_item_of_prepare_error type fails
      obtain ⟨kind, coerces, deep⟩ := items s element below
      exact ⟨kind, coerces, .item type inside element deep⟩
    · rw [prepare_atomic h atomic] at fails
      unfold coerced at fails
      split at fails
      next t coerces type =>
        obtain ⟨kind, long⟩ := coerce_error_iff.1 fails
        exact ⟨kind, coerces, .here type long⟩
      next => cases fails

/-- **Preparation fails exactly on numbers of too many digits that are to be coerced.** -/
theorem prepare_error_iff {s : Schema} {v : Value} {e : Failure} :
    prepare h s v = .error e ↔
      e = .valueMisuse ∧ h.coerceTypes = true ∧ MeetsOverlong s v := by
  constructor
  · exact meetsOverlong_of_prepare_error
  · rintro ⟨rfl, coerces, meets⟩
    cases value : prepare h s v with
    | ok d => exact absurd value (prepare_ne_ok_of_meetsOverlong coerces meets d)
    | error e => rw [(meetsOverlong_of_prepare_error value).1]

end Preparation

namespace Validator

/-- A payload without an answer: a number of too many digits in it is coerced, or a message about
the prepared payload quotes one. -/
def Unanswerable (c : Validator) (payload : Value) : Prop :=
  (c.handling.coerceTypes = true ∧ MeetsOverlong c.schema payload) ∨
    ∃ d, prepare c.handling c.schema payload = .ok d ∧
      ∃ e ∈ check c.schema d, e.writable = false

theorem validate_of_error {c : Validator} {payload : Value} {e : Failure}
    (fails : prepare c.handling c.schema payload = .error e) : c.validate payload = .error e := by
  unfold validate report examine
  rw [fails]
  rfl

theorem validate_of_unwritable {c : Validator} {payload d : Value}
    (prepared : prepare c.handling c.schema payload = .ok d)
    (unwritable : ∃ e ∈ check c.schema d, e.writable = false) :
    c.validate payload = .error .valueMisuse := by
  have stuck : (check c.schema d).all Violation.writable = false := by
    simpa [List.all_eq_false] using unwritable
  unfold validate report examine
  rw [prepared]
  simp only [bind, Except.bind, pure, Except.pure, stuck]
  rfl

theorem validate_of_writable {c : Validator} {payload d : Value}
    (prepared : prepare c.handling c.schema payload = .ok d)
    (writable : ¬ ∃ e ∈ check c.schema d, e.writable = false) :
    c.validate payload = .ok (Verdict.of d (check c.schema d)) := by
  have all : (check c.schema d).all Violation.writable = true := by
    rw [List.all_eq_true]
    intro e inside
    by_contra stuck
    exact writable ⟨e, inside, Bool.eq_false_of_not_eq_true stuck⟩
  unfold validate report examine
  rw [prepared]
  simp only [bind, Except.bind, pure, Except.pure, all, if_true]

theorem verdict_accepted_iff {v d : Value} {es : List Violation} :
    Verdict.of v es = .accepted d ↔ v = d ∧ es = [] := by
  unfold Verdict.of
  cases es <;> simp

/-- Data is accepted if it is what the payload is prepared to and has no violations. -/
theorem validate_accepted_iff {c : Validator} {p d : Value} :
    c.validate p = .ok (.accepted d) ↔
      prepare c.handling c.schema p = .ok d ∧ check c.schema d = [] := by
  cases prepared : prepare c.handling c.schema p with
  | error e => simp [validate_of_error prepared]
  | ok v =>
    by_cases unwritable : ∃ e ∈ check c.schema v, e.writable = false
    · rw [validate_of_unwritable prepared unwritable]
      constructor
      · intro accepted
        cases accepted
      · rintro ⟨same, clean⟩
        cases same
        obtain ⟨e, inside, -⟩ := unwritable
        rw [clean] at inside
        cases inside
    · rw [validate_of_writable prepared unwritable, Except.ok.injEq, verdict_accepted_iff,
        Except.ok.injEq]
      apply and_congr_right
      rintro rfl
      rfl

/-- With room for every call every payload is answered, but for those that need a number of too many
digits: an accepted one without errors, a rejected one without data and with an error. The others
fail in one way. -/
theorem validate_answers (c : Validator) (payload : Value) :
    (c.Unanswerable payload ∧ c.validate payload = .error .valueMisuse) ∨
      (¬ c.Unanswerable payload ∧ ∃ verdict, c.validate payload = .ok verdict ∧
        ((verdict.ok = true ∧ verdict.errors = []) ∨
          (verdict.ok = false ∧ verdict.data = .null ∧ verdict.errors ≠ []))) := by
  cases prepared : prepare c.handling c.schema payload with
  | error e =>
    obtain ⟨rfl, meets⟩ := prepare_error_iff.1 prepared
    exact .inl ⟨.inl meets, validate_of_error prepared⟩
  | ok d =>
    have free : ¬ (c.handling.coerceTypes = true ∧ MeetsOverlong c.schema payload) := by
      rintro ⟨coerces, meets⟩
      exact prepare_ne_ok_of_meetsOverlong coerces meets d prepared
    by_cases unwritable : ∃ e ∈ check c.schema d, e.writable = false
    · left
      exact ⟨.inr ⟨d, prepared, unwritable⟩, validate_of_unwritable prepared unwritable⟩
    · right
      constructor
      · rintro (meets | ⟨d', same, stuck⟩)
        · exact free meets
        · cases prepared.symm.trans same
          exact unwritable stuck
      · refine ⟨_, validate_of_writable prepared unwritable, ?_⟩
        cases violations : check c.schema d with
        | nil => exact .inl ⟨rfl, rfl⟩
        | cons first rest => exact .inr ⟨rfl, rfl, List.cons_ne_nil _ _⟩

end Validator

end ShapeContract.Wire
