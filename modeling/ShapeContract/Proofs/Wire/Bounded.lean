import ShapeContract.Proofs.Wire.Writable
import ShapeContract.Wire.Emission

/-!
# Answers on a bounded stack

On a stack without an end a payload has an answer unless a number of too many digits is in the way.
On any other stack the run is the same as far as there is room: it comes to the same answer, or it
ends at the first call that does not fit. `Cut` says so of a computation, and of one made of others.
-/

set_option autoImplicit false

namespace ShapeContract.Wire

/-! ## Computations cut short -/

/-- What a stack makes of a computation: the same value if every call fits, the end of the room if
some call does not, or the failure that the computation has anyway, before any call that does not. -/
inductive Cut {α : Type} (full : Prop) : Except Failure α → Except Failure α → Prop
  | done (y : α) (fits : ¬ full) : Cut full (.ok y) (.ok y)
  | full (free : Except Failure α) (here : full) : Cut full free (.error .recursionMisuse)
  | stuck : Cut full (.error .valueMisuse) (.error .valueMisuse)

namespace Cut

variable {α β : Type} {p q : Prop} {x y : Except Failure α}

/-- The condition of a cut may be restated. -/
theorem congr (cut : Cut p x y) (same : p ↔ q) : Cut q x y := propext same ▸ cut

/-- One computation after the other: the second counts if the first comes to its end. -/
theorem bind {f g : α → Except Failure β} (first : Cut p x y) (imp : p → q)
    (second : ∀ a, x = .ok a → ¬ p → Cut q (f a) (g a)) : Cut q (x >>= f) (y >>= g) := by
  cases first with
  | done a fits => exact second a rfl fits
  | full _ here => exact .full _ (imp here)
  | stuck => exact .stuck

theorem map (cut : Cut p x y) (f : α → β) : Cut p (x.map f) (y.map f) := by
  cases cut with
  | done y fits => exact .done _ fits
  | full _ here => exact .full _ here
  | stuck => exact .stuck

/-- The items of a list, one after the other. -/
theorem mapM {full : α → Prop} {f g : α → Except Failure β} {xs : List α}
    (each : ∀ a ∈ xs, Cut (full a) (f a) (g a)) :
    Cut (∃ a ∈ xs, full a) (xs.mapM f) (xs.mapM g) := by
  induction xs with
  | nil => exact .done _ (by simp)
  | cons x rest ih =>
    obtain ⟨here, later⟩ := List.forall_mem_cons.1 each
    rw [List.mapM_cons, List.mapM_cons]
    refine here.bind (fun first => ⟨x, List.mem_cons_self, first⟩) fun y _ fits => ?_
    refine (ih later).bind (fun ⟨a, inside, deep⟩ => ⟨a, List.mem_cons_of_mem _ inside, deep⟩)
      fun ys _ none => .done _ ?_
    rintro ⟨a, inside, deep⟩
    rcases List.mem_cons.1 inside with rfl | among
    · exact fits deep
    · exact none ⟨a, among, deep⟩

end Cut

/-- Entering a level is cut exactly when the stack has no room for it. -/
theorem cut_enter (st : Stack) (level : Nat) :
    Cut (st.enters level = false) (.ok ()) (st.enter level) := by
  unfold Stack.enter
  cases room : st.enters level with
  | true => exact .done _ nofun
  | false => exact .full _ rfl

/-- Copying a value is cut exactly when the stack has no room for its levels. -/
theorem cut_copy (st : Stack) (level : Nat) (v : Value) :
    Cut (st.copies level v = false) (.ok v) (st.copy level v) := by
  unfold Stack.copy
  cases room : st.copies level v with
  | true => exact .done _ nofun
  | false => exact .full _ rfl

/-! ## Preparation -/

/-- Somewhere in the preparation of a value, so many levels deep, a call does not fit. -/
inductive Exceeds (st : Stack) (h : Handling) : Schema → Nat → Value → Prop
  | entering {s : Schema} {level : Nat} {v : Value} (full : st.enters level = false) :
    Exceeds st h s level v
  | always {level : Nat} {v : Value} (full : st.copies level v = false) :
    Exceeds st h .always level v
  | never {level : Nat} {v : Value} (full : st.copies level v = false) :
    Exceeds st h .never level v
  | whole {ks : List Keyword} {level : Nat} {v w : Value} (atomic : Atomic ks v)
    (value : coerced h ks v = .ok w) (full : st.copies level w = false) :
    Exceeds st h (.document ks) level v
  | member {ks : List Keyword} {level : Nat} {fs : Fields Value} {name : String} {s : Schema}
    {v : Value} (type : Keyword.declared? ks = some .object) (inside : (name, v) ∈ fs)
    (property : Fields.get? (Keyword.propertiesOf ks) name = some s)
    (deep : Exceeds st h s (level + 1) v) : Exceeds st h (.document ks) level (.object fs)
  | unknown {ks : List Keyword} {level : Nat} {fs : Fields Value} {name : String} {v : Value}
    (type : Keyword.declared? ks = some .object) (inside : (name, v) ∈ fs)
    (undeclared : Fields.get? (Keyword.propertiesOf ks) name = none)
    (kept : h.allowUnknown = true) (full : st.copies level v = false) :
    Exceeds st h (.document ks) level (.object fs)
  | default {ks : List Keyword} {level : Nat} {fs out : Fields Value} {name : String} {v : Value}
    (type : Keyword.declared? ks = some .object)
    (members : prepareMembers h (Keyword.propertiesOf ks) fs = .ok out)
    (missing : (name, v) ∈ missingDefaults ks out) (full : st.copies level v = false) :
    Exceeds st h (.document ks) level (.object fs)
  | item {ks : List Keyword} {level : Nat} {vs : List Value} {v : Value}
    (type : Keyword.declared? ks = some .array) (inside : v ∈ vs)
    (deep : Exceeds st h ((Keyword.itemsOf? ks).getD .always) (level + 1) v) :
    Exceeds st h (.document ks) level (.list vs)

section Preparation

variable {st : Stack} {h : Handling} {ks : List Keyword} {level : Nat}

/-- Some member of an object cannot be prepared, or copied, or cannot be entered. -/
def MemberExceeds (st : Stack) (h : Handling) (ps : List (String × Schema)) (level : Nat)
    (e : String × Value) : Prop :=
  (Fields.get? ps e.1).elim (st.copies level e.2 = false) fun s => Exceeds st h s (level + 1) e.2

/-- A declared member is prepared one level further down … -/
theorem memberExceeds_known {ps : List (String × Schema)} {name : String} {s : Schema}
    (property : Fields.get? ps name = some s) (v : Value) :
    MemberExceeds st h ps level (name, v) ↔ Exceeds st h s (level + 1) v := by
  rw [MemberExceeds, property]
  rfl

/-- … and an undeclared one is copied at the object's own level. -/
theorem memberExceeds_unknown {ps : List (String × Schema)} {name : String}
    (undeclared : Fields.get? ps name = none) (v : Value) :
    MemberExceeds st h ps level (name, v) ↔ st.copies level v = false := by
  rw [MemberExceeds, undeclared]
  rfl

theorem exceeds_object_iff (type : Keyword.declared? ks = some .object) {fs : Fields Value} :
    Exceeds st h (.document ks) level (.object fs) ↔
      st.enters level = false ∨
      (∃ e ∈ fs.filter (keepsMember h (Keyword.propertiesOf ks)),
        MemberExceeds st h (Keyword.propertiesOf ks) level e) ∨
      ∃ out, prepareMembers h (Keyword.propertiesOf ks) fs = .ok out ∧
        ∃ e ∈ missingDefaults ks out, st.copies level e.2 = false := by
  constructor
  · intro exceeds
    cases exceeds with
    | entering full => exact .inl full
    | whole atomic =>
      unfold Atomic at atomic
      rw [type] at atomic
      exact atomic.elim
    | @member _ _ _ name s v _ inside property deep =>
      exact .inr (.inl ⟨(name, v), mem_kept property inside, (memberExceeds_known property v).2 deep⟩)
    | @unknown _ _ _ name v _ inside undeclared kept full =>
      have stays : keepsMember h (Keyword.propertiesOf ks) (name, v) = true := by
        simp [keepsMember, kept]
      exact .inr (.inl ⟨(name, v), List.mem_filter.2 ⟨inside, stays⟩,
        (memberExceeds_unknown undeclared v).2 full⟩)
    | default _ members missing full => exact .inr (.inr ⟨_, members, _, missing, full⟩)
  · rintro (full | ⟨⟨name, v⟩, inside, full⟩ | ⟨out, members, ⟨name, v⟩, missing, full⟩)
    · exact .entering full
    · obtain ⟨there, stays⟩ := List.mem_filter.1 inside
      cases property : Fields.get? (Keyword.propertiesOf ks) name with
      | some s => exact .member type there property ((memberExceeds_known property v).1 full)
      | none =>
        have kept : h.allowUnknown = true := by
          simpa [keepsMember, Fields.contains, property] using stays
        exact .unknown type there property kept ((memberExceeds_unknown property v).1 full)
    · exact .default type members missing full

/-- An array exceeds the stack at its own level or in one of its elements. -/
theorem exceeds_array_iff (type : Keyword.declared? ks = some .array) {vs : List Value} :
    Exceeds st h (.document ks) level (.list vs) ↔
      st.enters level = false ∨
      ∃ v ∈ vs, Exceeds st h ((Keyword.itemsOf? ks).getD .always) (level + 1) v := by
  constructor
  · intro exceeds
    cases exceeds with
    | entering full => exact .inl full
    | whole atomic =>
      unfold Atomic at atomic
      rw [type] at atomic
      exact atomic.elim
    | item _ inside deep => exact .inr ⟨_, inside, deep⟩
  · rintro (full | ⟨v, inside, deep⟩)
    · exact .entering full
    · exact .item type inside deep

/-- A value without parts is coerced first, then copied. -/
theorem exceeds_atomic_iff {v : Value} (atomic : Atomic ks v) :
    Exceeds st h (.document ks) level v ↔
      st.enters level = false ∨ ∃ w, coerced h ks v = .ok w ∧ st.copies level w = false := by
  constructor
  · intro exceeds
    unfold Atomic at atomic
    cases exceeds with
    | entering full => exact .inl full
    | whole _ value full => exact .inr ⟨_, value, full⟩
    | member type | unknown type | default type | item type =>
      rw [type] at atomic
      exact atomic.elim
  · rintro (full | ⟨w, value, full⟩)
    · exact .entering full
    · exact .whole atomic value full

/-- What is copied as it is. -/
theorem cut_plain {p : Prop} (v : Value)
    (same : p ↔ st.enters level = false ∨ st.copies level v = false) :
    Cut p (.ok v) (do st.enter level; st.copy level v) := by
  have entered := cut_enter st level
  refine (entered.bind (f := fun _ => .ok v) .inl fun _ _ fits => ?_).congr same.symm
  exact (cut_copy st level v).congr (or_iff_right fits).symm

theorem cut_always (level : Nat) (v : Value) :
    Cut (Exceeds st h .always level v) (prepare h .always v)
      (prepareWithin st h .always level v) := by
  refine cut_plain v ⟨fun exceeds => ?_, fun full => full.elim .entering .always⟩
  cases exceeds with
  | entering full => exact .inl full
  | always full => exact .inr full

/-- Coercion makes no nested calls: it fails of itself or not at all. -/
theorem cut_coerced (ks : List Keyword) (v : Value) :
    Cut False (coerced h ks v) (coerced h ks v) := by
  cases value : coerced h ks v with
  | ok w => exact .done w id
  | error e =>
    unfold coerced at value
    split at value
    next => rw [(coerce_error_iff.1 value).1]; exact .stuck
    next => cases value

theorem cut_member {ps : List (String × Schema)}
    (each : ∀ name s, Fields.get? ps name = some s → ∀ level v,
      Cut (Exceeds st h s level v) (prepare h s v) (prepareWithin st h s level v))
    (level : Nat) (e : String × Value) :
    Cut (MemberExceeds st h ps level e) (prepareMember h ps e) (memberWithin st h ps level e) := by
  obtain ⟨name, v⟩ := e
  cases property : Fields.get? ps name with
  | some s =>
    rw [prepareMember_known property, memberWithin_known property]
    exact ((each name s property _ v).map _).congr (memberExceeds_known property v).symm
  | none =>
    rw [prepareMember_unknown property, memberWithin_unknown property]
    exact ((cut_copy st level v).map fun w => (name, w)).congr
      (memberExceeds_unknown property v).symm

/-- Copying members is cut by the first that is too deep. -/
theorem cut_copyFields (fs : Fields Value) :
    Cut (∃ e ∈ fs, st.copies level e.2 = false) (.ok fs) (copyFields st level fs) := by
  rw [← copyFields_endless level fs]
  exact Cut.mapM fun e _ => (cut_copy st level e.2).map fun w => (e.1, w)

/-- **Preparation on a stack** is preparation, as far as every call fits. -/
theorem cut_prepare (s : Schema) : ∀ level v,
    Cut (Exceeds st h s level v) (prepare h s v) (prepareWithin st h s level v) := by
  induction s using Schema.induct with
  | always => exact cut_always
  | never =>
    refine fun level v => cut_plain v ⟨fun exceeds => ?_, fun full => full.elim .entering .never⟩
    cases exceeds with
    | entering full => exact .inl full
    | never full => exact .inr full
  | document ks properties items =>
    intro level v
    have entered := cut_enter st level
    rcases atomic_or ks v with ⟨fs, type, rfl⟩ | ⟨vs, type, rfl⟩ | atomic
    · have free : prepare h (.document ks) (.object fs) = (do
          let _ ← (.ok () : Except Failure Unit)
          let out ← prepareMembers h (Keyword.propertiesOf ks) fs
          let defaults ← (.ok (missingDefaults ks out) : Except Failure (Fields Value))
          pure (.object (out ++ defaults))) := by
        rw [prepare_object h type]
        cases prepareMembers h (Keyword.propertiesOf ks) fs <;> rfl
      have members := Cut.mapM fun e (_ : e ∈ fs.filter (keepsMember h (Keyword.propertiesOf ks))) =>
        cut_member properties level e
      rw [free, prepareWithin_object st h type]
      refine Cut.congr ?_ (exceeds_object_iff type).symm
      refine entered.bind .inl fun _ _ room => ?_
      refine members.bind (fun full => .inr (.inl full)) fun out done fits => ?_
      refine (cut_copyFields _).bind (fun full => .inr (.inr ⟨out, done, full⟩)) fun _ _ free => ?_
      refine .done _ ?_
      rintro (full | full | ⟨out', done', full⟩)
      · exact room full
      · exact fits full
      · cases done.symm.trans done'
        exact free full
    · have each : ∀ w ∈ vs, Cut (Exceeds st h ((Keyword.itemsOf? ks).getD .always) (level + 1) w)
          (prepare h ((Keyword.itemsOf? ks).getD .always) w)
          (prepareWithin st h ((Keyword.itemsOf? ks).getD .always) (level + 1) w) := by
        intro w _
        cases element : Keyword.itemsOf? ks with
        | some s => exact items s element (level + 1) w
        | none => exact cut_always (level + 1) w
      have free : prepare h (.document ks) (.list vs) = (do
          let _ ← (.ok () : Except Failure Unit)
          let out ← vs.mapM (prepare h ((Keyword.itemsOf? ks).getD .always))
          pure (.list out)) := by
        rw [prepare_array h type]
        cases Keyword.itemsOf? ks <;> rfl
      rw [free, prepareWithin_array st h type]
      refine Cut.congr ?_ (exceeds_array_iff type).symm
      refine entered.bind .inl fun _ _ room => ?_
      refine (Cut.mapM each).bind .inr fun out _ fits => .done _ ?_
      exact fun full => full.elim room fits
    · have free : prepare h (.document ks) v = (do
          let _ ← (.ok () : Except Failure Unit)
          let w ← coerced h ks v
          .ok w) := by
        rw [prepare_atomic h atomic]
        cases coerced h ks v <;> rfl
      rw [free, prepareWithin_atomic st h atomic]
      refine Cut.congr ?_ (exceeds_atomic_iff atomic).symm
      refine entered.bind .inl fun _ _ room => ?_
      refine (cut_coerced ks v).bind False.elim fun w value _ => (cut_copy st level w).congr ?_
      constructor
      · exact fun full => .inr ⟨w, value, full⟩
      · rintro (full | ⟨w', value', full⟩)
        · exact absurd full room
        · cases value.symm.trans value'
          exact full

end Preparation

/-! ## Validators -/

namespace Validator

/-- Somewhere in the preparation of a payload, or in the check of what it is prepared to, a call
does not fit. -/
def Exceeds (c : Validator) (st : Stack) (payload : Value) : Prop :=
  Wire.Exceeds st c.handling c.schema 0 payload ∨
    ∃ d, prepare c.handling c.schema payload = .ok d ∧ st.checks c.schema d = false

/-- A payload is prepared, then checked, and the messages have to be writable. -/
theorem validate_eq (c : Validator) (payload : Value) :
    c.validate payload = (do
      let d ← prepare c.handling c.schema payload
      if (check c.schema d).all Violation.writable then pure (Verdict.of d (check c.schema d))
      else throw .valueMisuse) := by
  unfold validate report examine
  cases prepare c.handling c.schema payload with
  | error _ => rfl
  | ok d =>
    simp only [bind, Except.bind, pure, Except.pure]
    cases (check c.schema d).all Violation.writable <;> rfl

/-- **Validation on a stack** is validation, as far as every call fits. -/
theorem cut_validate (st : Stack) (c : Validator) (payload : Value) :
    Cut (c.Exceeds st payload) (c.validate payload) (c.validateWithin st payload) := by
  rw [validate_eq, validateWithin]
  refine (cut_prepare c.schema 0 payload).bind .inl fun d prepared room => ?_
  cases checks : st.checks c.schema d with
  | false => exact .full _ (.inr ⟨d, prepared, checks⟩)
  | true =>
    have fits : ¬ c.Exceeds st payload := by
      rintro (full | ⟨d', prepared', full⟩)
      · exact room full
      · cases prepared.symm.trans prepared'
        rw [checks] at full
        cases full
    rw [if_pos rfl]
    dsimp only
    split
    · exact .done _ fits
    · exact .stuck

/-- With room for every call nothing is cut short. -/
theorem validateWithin_endless (c : Validator) (payload : Value) :
    c.validateWithin .endless payload = c.validate payload := by
  rw [validate_eq]
  rfl

/-- **Every payload is answered, as far as the stack has room, but for those that need a number of
too many digits**: an accepted one without errors, a rejected one without data and with an error. The
others fail in one of two ways. If no integer of the schema and the payload has too many digits, only
a text of such a number that is to be coerced is in the way. -/
theorem validateWithin_answers (st : Stack) (c : Validator) (payload : Value) :
    ((c.Exceeds st payload ∧ c.validateWithin st payload = .error .recursionMisuse) ∨
      (c.Unanswerable payload ∧ c.validateWithin st payload = .error .valueMisuse) ∨
      (¬ c.Exceeds st payload ∧ ¬ c.Unanswerable payload ∧
        ∃ verdict, c.validateWithin st payload = .ok verdict ∧
          ((verdict.ok = true ∧ verdict.errors = []) ∨
            (verdict.ok = false ∧ verdict.data = .null ∧ verdict.errors ≠ [])))) ∧
      (c.schema.writable = true → payload.writable = true → c.Unanswerable payload →
        c.handling.coerceTypes = true ∧ MeetsOverlong c.schema payload) := by
  refine ⟨?_, meetsOverlong_of_unanswerable⟩
  have cut := cut_validate st c payload
  have answers := validate_answers c payload
  generalize c.validate payload = free at cut answers
  generalize c.validateWithin st payload = bounded at cut
  cases cut with
  | full _ exceeds => exact .inl ⟨exceeds, rfl⟩
  | stuck =>
    rcases answers with ⟨unanswerable, -⟩ | ⟨-, verdict, answer, -⟩
    · exact .inr (.inl ⟨unanswerable, rfl⟩)
    · cases answer
  | done verdict fits =>
    rcases answers with ⟨-, fails⟩ | ⟨answerable, _, answer, shape⟩
    · cases fails
    · cases answer
      exact .inr (.inr ⟨fits, answerable, verdict, rfl, shape⟩)

section

attribute [local instance] CharacterNames.common

/-- A text of 4301 digits for a number: no verdict. -/
theorem not_validate_answers_nines :
    let height : Rule := ⟨{ type := .number }, none, none⟩
    let tree : Rule := ⟨{ type := .object }, none, some [("height", height)]⟩
    let c : Validator := ⟨Schema.ofDocument (ofTree false tree), ⟨true, false⟩⟩
    let nines := String.ofList (List.replicate 4301 '9')
    c.validate (.object [("height", .str nines)]) = .error .valueMisuse := by
  intro height tree c nines
  have long : TypeName.number.overlong (.str nines) = true := by
    show Text.overlong (Text.trim nines.toList) = true
    rw [String.toList_ofList]
    decide +kernel
  have meets : MeetsOverlong c.schema (.object [("height", .str nines)]) :=
    .member rfl List.mem_cons_self rfl (.here rfl long)
  exact validate_of_error (prepare_error_iff.2 ⟨rfl, rfl, meets⟩)

end

/-- Lists in lists. -/
def nested : Nat → Value
  | 0 => .list []
  | n + 1 => .list [nested n]

theorem depth_nested (n : Nat) : (nested n).depth = n + 1 := by
  induction n with
  | zero => rfl
  | succ n ih => simp only [nested, Value.depth, Value.depthAll, ih, Nat.max_def]; simp

/-- **No bounded stack has room for every payload**: where an object is asked for, lists in lists
are copied before they are refused. -/
theorem validateWithin_nested {c : Validator} {ks : List Keyword} (schema : c.schema = .document ks)
    (type : Keyword.declared? ks = some .object) (n : Nat) :
    c.validateWithin (.ofDepth n) (nested n) = .error .recursionMisuse := by
  have atomic : Atomic ks (nested n) := by
    unfold Atomic
    rw [type]
    cases n <;> trivial
  have full : Stack.copy (.ofDepth n) 0 (nested n) = .error .recursionMisuse := by
    simp [Stack.copy, Stack.ofDepth, depth_nested]
  have room : Stack.enter (.ofDepth n) 0 = .ok () := by simp [Stack.enter, Stack.ofDepth]
  rw [validateWithin, schema, prepareWithin_atomic _ _ atomic, coerced_object _ type, room]
  simp only [bind, Except.bind, full]

end Validator

end ShapeContract.Wire
