import ShapeContract.Proofs.Wire.Answers
import ShapeContract.Wire.Emission

/-!
# Accepted data, validated again

A default is filled in as it is declared, not prepared as a member of the payload would be. So data
that a validator has accepted may be changed, or refused, when it is validated again. It stays what
it is exactly if each default that was filled in is what its schema would prepare it to.
-/

set_option autoImplicit false

namespace ShapeContract.Wire

/-- Under the schema a payload gets defaults: the schema of the member that was missing, and its
default. -/
inductive Fills : Schema → Value → Schema → Value → Prop
  | here {ks : List Keyword} {fs : Fields Value} {name : String} {t : Schema} {w : Value}
      (type : Keyword.declared? ks = some .object) (filled : (name, w) ∈ missingDefaults ks fs)
      (property : Fields.get? (Keyword.propertiesOf ks) name = some t) :
      Fills (.document ks) (.object fs) t w
  | member {ks : List Keyword} {fs : Fields Value} {name : String} {s t : Schema} {v w : Value}
      (type : Keyword.declared? ks = some .object) (inside : (name, v) ∈ fs)
      (property : Fields.get? (Keyword.propertiesOf ks) name = some s) (deep : Fills s v t w) :
      Fills (.document ks) (.object fs) t w
  | item {ks : List Keyword} {vs : List Value} {s t : Schema} {v w : Value}
      (type : Keyword.declared? ks = some .array) (inside : v ∈ vs)
      (element : Keyword.itemsOf? ks = some s) (deep : Fills s v t w) :
      Fills (.document ks) (.list vs) t w

section Scalars

variable {h : Handling} {ks : List Keyword} {v w : Value}

theorem coerced_again (done : coerced h ks v = .ok w) : coerced h ks w = .ok w := by
  unfold coerced at done ⊢
  split at done
  next => exact coerce_coerced done
  next => rfl

/-- What is prepared as a whole stays so. -/
theorem atomic_coerced (atomic : Atomic ks v) (done : coerced h ks v = .ok w) : Atomic ks w := by
  by_cases object : Keyword.declared? ks = some .object
  · cases (coerced_object h object v).symm.trans done
    exact atomic
  · by_cases array : Keyword.declared? ks = some .array
    · cases (coerced_array h array v).symm.trans done
      exact atomic
    · unfold Atomic
      split
      next type => exact object type
      next type => exact array type
      next => trivial

theorem prepare_atomic_again (atomic : Atomic ks v) (done : prepare h (.document ks) v = .ok w) :
    prepare h (.document ks) w = .ok w := by
  rw [prepare_atomic h atomic] at done
  rw [prepare_atomic h (atomic_coerced atomic done)]
  exact coerced_again done

theorem not_fills_atomic (atomic : Atomic ks v) {t : Schema} {u : Value} :
    ¬ Fills (.document ks) v t u := by
  intro fills
  cases fills with
  | here type => simp [Atomic, type] at atomic
  | member type => simp [Atomic, type] at atomic
  | item type => simp [Atomic, type] at atomic

end Scalars

/-- A list stays as it is exactly if every item does. -/
theorem mapM_fixed_iff {α : Type} {f : α → Except Failure α} {xs : List α} :
    xs.mapM f = .ok xs ↔ ∀ x ∈ xs, f x = .ok x := by
  rw [mapM_ok_iff, List.forall₂_same]

section Members

variable {h : Handling} {ks : List Keyword} {fs out : Fields Value}

theorem prepareMember_fixed_iff {ps : List (String × Schema)} {name : String} {s : Schema}
    (property : Fields.get? ps name = some s) {v : Value} :
    prepareMember h ps (name, v) = .ok (name, v) ↔ prepare h s v = .ok v := by
  simp [prepareMember_ok_iff, property]

/-- Preparing members keeps every declared one and brings in none. -/
theorem contains_prepareMembers {ps : List (String × Schema)}
    (done : prepareMembers h ps fs = .ok out) {name : String}
    (declared : Fields.contains ps name = true) : out.contains name = fs.contains name := by
  rw [Bool.eq_iff_iff, Fields.contains_iff, Fields.contains_iff]
  constructor
  · rintro ⟨w, inside⟩
    obtain ⟨⟨_, v⟩, source, same⟩ := exists_source_of_mapM_ok done inside
    obtain ⟨rfl, -⟩ := prepareMember_ok_iff.1 same
    exact ⟨v, List.mem_of_mem_filter source⟩
  · rintro ⟨v, inside⟩
    have stays : (name, v) ∈ fs.filter (keepsMember h ps) :=
      List.mem_filter.2 ⟨inside, by simp [keepsMember, declared]⟩
    obtain ⟨⟨_, w⟩, among, same⟩ := exists_of_mapM_ok done stays
    obtain ⟨rfl, -⟩ := prepareMember_ok_iff.1 same
    exact ⟨w, among⟩

theorem mem_missingDefaults {name : String} {w : Value} :
    (name, w) ∈ missingDefaults ks fs ↔
      ∃ s, (name, s) ∈ Keyword.propertiesOf ks ∧ fs.contains name = false ∧
        s.default? = some w := by
  unfold missingDefaults
  rw [List.mem_filterMap]
  constructor
  · rintro ⟨⟨other, s⟩, inside, here⟩
    split at here
    next => cases here
    next absent =>
      obtain ⟨v, default, same⟩ := Option.map_eq_some_iff.1 here
      cases same
      exact ⟨s, inside, by simpa using absent, default⟩
  · rintro ⟨s, inside, absent, default⟩
    exact ⟨(name, s), inside, by simp [absent, default]⟩

/-- Which defaults are missing depends on the declared members alone. -/
theorem missingDefaults_prepareMembers
    (done : prepareMembers h (Keyword.propertiesOf ks) fs = .ok out) :
    missingDefaults ks out = missingDefaults ks fs := by
  apply List.filterMap_congr
  intro e inside
  rw [contains_prepareMembers done (Fields.contains_iff.2 ⟨e.2, inside⟩)]

/-- Once filled in, no default is missing. -/
theorem missingDefaults_filled (ks : List Keyword) (fs : Fields Value) :
    missingDefaults ks (fs ++ missingDefaults ks fs) = [] := by
  apply List.eq_nil_iff_forall_not_mem.2
  rintro ⟨name, w⟩ filled
  obtain ⟨s, inside, absent, default⟩ := mem_missingDefaults.1 filled
  apply absurd absent
  rw [Bool.not_eq_false, Fields.contains_iff]
  cases known : fs.contains name with
  | true =>
    obtain ⟨v, inside⟩ := Fields.contains_iff.1 known
    exact ⟨v, List.mem_append_left _ inside⟩
  | false =>
    exact ⟨w, List.mem_append_right _ (mem_missingDefaults.2 ⟨s, inside, known, default⟩)⟩

/-- An object without missing defaults, all of whose members may stay, stays as it is exactly if
every member does. -/
theorem prepare_object_fixed_iff (type : Keyword.declared? ks = some .object)
    (complete : missingDefaults ks fs = [])
    (known : ∀ e ∈ fs, keepsMember h (Keyword.propertiesOf ks) e = true) :
    prepare h (.document ks) (.object fs) = .ok (.object fs) ↔
      ∀ e ∈ fs, prepareMember h (Keyword.propertiesOf ks) e = .ok e := by
  have all : prepareMembers h (Keyword.propertiesOf ks) fs =
      fs.mapM (prepareMember h (Keyword.propertiesOf ks)) := by
    rw [prepareMembers, List.filter_eq_self.2 known]
  rw [← mapM_fixed_iff, ← all, prepare_object_ok_iff type]
  constructor
  · rintro ⟨out, done, same⟩
    rw [missingDefaults_prepareMembers done, complete, List.append_nil] at same
    cases same
    exact done
  · intro stays
    exact ⟨fs, stays, by rw [complete, List.append_nil]⟩

end Members

section Fixed

variable {h : Handling} {ks : List Keyword}

/-- A value is prepared to one that stays as it is exactly if the defaults filled in below do. -/
def FixedWithDefaults (h : Handling) (s : Schema) : Prop :=
  ∀ {v d : Value}, prepare h s v = .ok d →
    (prepare h s d = .ok d ↔ ∀ t w, Fills s v t w → prepare h t w = .ok w)

/-- Prepared members stay as they are exactly if the defaults filled in below them do. -/
theorem members_fixed_iff {ps : List (String × Schema)}
    (below : ∀ name s, Fields.get? ps name = some s → FixedWithDefaults h s)
    {fs out : Fields Value} (done : prepareMembers h ps fs = .ok out) :
    (∀ e ∈ out, prepareMember h ps e = .ok e) ↔
      ∀ name v s, (name, v) ∈ fs → Fields.get? ps name = some s →
        ∀ t w, Fills s v t w → prepare h t w = .ok w := by
  constructor
  · intro stays name v s inside declared
    obtain ⟨⟨_, d⟩, among, same⟩ := exists_of_mapM_ok done (mem_kept declared inside)
    obtain ⟨rfl, here⟩ := prepareMember_ok_iff.1 same
    rw [declared] at here
    exact (below _ s declared here).1 ((prepareMember_fixed_iff declared).1 (stays _ among))
  · rintro each ⟨_, d⟩ inside
    obtain ⟨⟨name, v⟩, source, same⟩ := exists_source_of_mapM_ok done inside
    obtain ⟨rfl, here⟩ := prepareMember_ok_iff.1 same
    cases declared : Fields.get? ps name with
    | none => exact prepareMember_unknown declared d
    | some s =>
      rw [declared] at here
      apply (prepareMember_fixed_iff declared).2
      apply (below name s declared here).2
      exact each name v s (List.mem_of_mem_filter source) declared

theorem exists_property_of_missing {fs : Fields Value} {name : String} {w : Value}
    (filled : (name, w) ∈ missingDefaults ks fs) :
    ∃ t, Fields.get? (Keyword.propertiesOf ks) name = some t := by
  obtain ⟨s, inside, -⟩ := mem_missingDefaults.1 filled
  exact Option.isSome_iff_exists.1 (Fields.contains_iff.2 ⟨s, inside⟩)

/-- Every member of a filled object may stay. -/
theorem keeps_filled {fs out : Fields Value}
    (done : prepareMembers h (Keyword.propertiesOf ks) fs = .ok out) :
    ∀ e ∈ out ++ missingDefaults ks fs, keepsMember h (Keyword.propertiesOf ks) e = true := by
  rintro ⟨_, w⟩ inside
  rcases List.mem_append.1 inside with prepared | default
  · obtain ⟨⟨name, v⟩, source, same⟩ := exists_source_of_mapM_ok done prepared
    obtain ⟨rfl, -⟩ := prepareMember_ok_iff.1 same
    exact (List.mem_filter.1 source).2
  · obtain ⟨t, declared⟩ := exists_property_of_missing default
    exact keepsMember_of_property declared w

/-- What is filled in below an object: its own missing defaults, and those below its members. -/
theorem forall_fills_object_iff (type : Keyword.declared? ks = some .object) {fs : Fields Value}
    {P : Schema → Value → Prop} :
    (∀ t w, Fills (.document ks) (.object fs) t w → P t w) ↔
      (∀ name v s, (name, v) ∈ fs → Fields.get? (Keyword.propertiesOf ks) name = some s →
        ∀ t w, Fills s v t w → P t w) ∧
      ∀ name w t, (name, w) ∈ missingDefaults ks fs →
        Fields.get? (Keyword.propertiesOf ks) name = some t → P t w := by
  constructor
  · intro each
    constructor
    · intro name v s inside declared t w deep
      exact each t w (.member type inside declared deep)
    · intro name w t filled declared
      exact each t w (.here type filled declared)
  · rintro ⟨members, defaults⟩ t w fills
    cases fills with
    | here _ filled declared => exact defaults _ w t filled declared
    | member _ inside declared deep => exact members _ _ _ inside declared t w deep

/-- The step at an object. -/
theorem fixedWithDefaults_object (type : Keyword.declared? ks = some .object)
    (below : ∀ name s, Fields.get? (Keyword.propertiesOf ks) name = some s → FixedWithDefaults h s)
    {fs : Fields Value} {d : Value} (done : prepare h (.document ks) (.object fs) = .ok d) :
    prepare h (.document ks) d = .ok d ↔
      ∀ t w, Fills (.document ks) (.object fs) t w → prepare h t w = .ok w := by
  obtain ⟨out, members, rfl⟩ := (prepare_object_ok_iff type).1 done
  have filled := missingDefaults_prepareMembers members
  have complete := missingDefaults_filled ks out
  rw [filled] at complete ⊢
  rw [prepare_object_fixed_iff type complete (keeps_filled members), List.forall_mem_append,
    members_fixed_iff below members, forall_fills_object_iff type]
  apply and_congr_right
  intro _
  constructor
  · intro stays name w t filled declared
    exact (prepareMember_fixed_iff declared).1 (stays _ filled)
  · rintro each ⟨name, w⟩ filled
    obtain ⟨t, declared⟩ := exists_property_of_missing filled
    exact (prepareMember_fixed_iff declared).2 (each name w t filled declared)

/-- The step at an array. -/
theorem fixedWithDefaults_array (type : Keyword.declared? ks = some .array)
    (below : ∀ s, Keyword.itemsOf? ks = some s → FixedWithDefaults h s)
    {vs : List Value} {d : Value} (done : prepare h (.document ks) (.list vs) = .ok d) :
    prepare h (.document ks) d = .ok d ↔
      ∀ t w, Fills (.document ks) (.list vs) t w → prepare h t w = .ok w := by
  obtain ⟨out, items, rfl⟩ := (prepare_array_ok_iff type).1 done
  have list : prepare h (.document ks) (.list out) = .ok (.list out) ↔
      ∀ w ∈ out, ((Keyword.itemsOf? ks).elim (.ok w) fun s => prepare h s w) = .ok w := by
    rw [prepare_array_ok_iff type, ← mapM_fixed_iff]
    simp
  rw [list]
  constructor
  · intro stays t u fills
    cases fills with
    | item _ inside element deep =>
      obtain ⟨w, among, same⟩ := exists_of_mapM_ok items inside
      have again := stays w among
      rw [element] at same again
      exact (below _ element same).1 again t u deep
  · intro each w inside
    obtain ⟨v, source, same⟩ := exists_source_of_mapM_ok items inside
    cases element : Keyword.itemsOf? ks with
    | none => rfl
    | some s =>
      rw [element] at same
      apply (below s element same).2
      intro t u deep
      exact each t u (.item type source element deep)

/-- **A prepared value stays as it is exactly if each default that was filled in does.** -/
theorem fixedWithDefaults (h : Handling) (s : Schema) : FixedWithDefaults h s := by
  induction s using Schema.induct with
  | always =>
    intro v d _
    constructor
    · intro _ t w fills
      cases fills
    · intro _
      rfl
  | never =>
    intro v d _
    constructor
    · intro _ t w fills
      cases fills
    · intro _
      rfl
  | document ks properties items =>
    intro v d done
    rcases atomic_or ks v with ⟨fs, type, rfl⟩ | ⟨vs, type, rfl⟩ | atomic
    · exact fixedWithDefaults_object type properties done
    · exact fixedWithDefaults_array type items done
    · constructor
      · intro _ t w fills
        exact absurd fills (not_fills_atomic atomic)
      · intro _
        exact prepare_atomic_again atomic done

end Fixed

namespace Validator

/-- **Accepted data is accepted again as it is exactly if each default that was filled in is what
its schema prepares it to.** -/
theorem validate_again_iff (c : Validator) {p d : Value}
    (accepted : c.validate p = .ok (.accepted d)) :
    c.validate d = .ok (.accepted d) ↔
      ∀ t w, Fills c.schema p t w → prepare c.handling t w = .ok w := by
  obtain ⟨prepared, clean⟩ := validate_accepted_iff.1 accepted
  rw [validate_accepted_iff, ← fixedWithDefaults c.handling c.schema prepared]
  exact and_iff_left clean

section

attribute [local instance] CharacterNames.common

/-- A unit with a default, at a place that is given: it is filled in once and for all. -/
theorem validate_again_place :
    let unit : Rule := ⟨{ type := .string, default := some (.str "m") }, none, none⟩
    let place : Rule := ⟨{ type := .object }, none, some [("unit", unit)]⟩
    let tree : Rule := ⟨{ type := .object }, none, some [("place", place)]⟩
    let c : Validator := ⟨Schema.ofDocument (ofTree false tree), ⟨true, false⟩⟩
    let p : Value := .object [("place", .object [])]
    let d : Value := .object [("place", .object [("unit", .str "m")])]
    c.validate p = .ok (.accepted d) ∧
      (c.validate d = .ok (.accepted d) ↔
        ∀ t w, Fills c.schema p t w → prepare c.handling t w = .ok w) := by
  intro unit place tree c p d
  have accepted : c.validate p = .ok (.accepted d) :=
    validate_accepted_iff.2 ⟨rfl, by decide +kernel⟩
  exact ⟨accepted, validate_again_iff c accepted⟩

/-- A place that is empty by default, with a unit that has one: the unit comes a run too late. -/
theorem not_validate_again_emptyPlace :
    let unit : Rule := ⟨{ type := .string, default := some (.str "m") }, none, none⟩
    let place : Rule := ⟨{ type := .object, default := some (.object []) }, none,
      some [("unit", unit)]⟩
    let tree : Rule := ⟨{ type := .object }, none, some [("place", place)]⟩
    let c : Validator := ⟨Schema.ofDocument (ofTree false tree), ⟨false, false⟩⟩
    let d : Value := .object [("place", .object [])]
    c.validate (.object []) = .ok (.accepted d) ∧
      c.validate d = .ok (.accepted (.object [("place", .object [("unit", .str "m")])])) ∧
      c.validate d ≠ .ok (.accepted d) := by
  intro unit place tree c d
  have first : prepare c.handling c.schema (.object []) = .ok d := rfl
  have second : prepare c.handling c.schema d =
      .ok (.object [("place", .object [("unit", .str "m")])]) := rfl
  constructor
  · exact validate_accepted_iff.2 ⟨first, by decide +kernel⟩
  constructor
  · exact validate_accepted_iff.2 ⟨second, by decide +kernel⟩
  · intro same
    have equal := second.symm.trans (validate_accepted_iff.1 same).1
    simp [d] at equal

end

end Validator

end ShapeContract.Wire
