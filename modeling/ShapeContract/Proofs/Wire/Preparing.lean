import ShapeContract.Proofs.Lists
import ShapeContract.Wire.Validator

/-!
# How a payload is prepared

One equation for each kind of value: the members of an object that stay, each under the schema of
its property, then the missing defaults; the items of an array under one schema; any other value
coerced. Proofs about preparation use these and `Schema.induct`, an induction over a schema with the
schemas of its properties and of its items in step.
-/

set_option autoImplicit false

namespace ShapeContract.Wire

/-- The schema of the items. -/
def Keyword.itemsOf? (ks : List Keyword) : Option Schema :=
  ks.findSome? fun k => match k with
    | .items s => some s
    | _ => none

namespace Schema

theorem sizeOf_property {ks : List Keyword} {name : String} {s : Schema}
    (declared : Fields.get? (Keyword.propertiesOf ks) name = some s) : sizeOf s < sizeOf ks := by
  induction ks with
  | nil => cases declared
  | cons k rest ih =>
    have whole : sizeOf (k :: rest) = 1 + sizeOf k + sizeOf rest := rfl
    cases k with
    | properties ps =>
      have inside : (name, s) ∈ ps := Fields.mem_of_get? declared
      have property := List.sizeOf_lt_of_mem inside
      simp only [Prod.mk.sizeOf_spec] at property
      simp only [Keyword.properties.sizeOf_spec] at whole
      omega
    | _ =>
      have deeper := ih declared
      omega

theorem sizeOf_items {ks : List Keyword} {s : Schema} (element : Keyword.itemsOf? ks = some s) :
    sizeOf s < sizeOf ks := by
  obtain ⟨k, member, here⟩ := List.exists_of_findSome?_eq_some element
  have keyword := List.sizeOf_lt_of_mem member
  cases k with
  | items t =>
    cases here
    simp only [Keyword.items.sizeOf_spec] at keyword
    omega
  | _ => cases here

/-- Induction over a schema: a document with the schemas of its properties and of its items. -/
@[elab_as_elim]
theorem induct {P : Schema → Prop} (always : P .always) (never : P .never)
    (document : ∀ ks, (∀ name s, Fields.get? (Keyword.propertiesOf ks) name = some s → P s) →
      (∀ s, Keyword.itemsOf? ks = some s → P s) → P (.document ks)) (s : Schema) : P s := by
  induction size : sizeOf s using Nat.strongRecOn generalizing s with
  | ind n ih =>
    cases s with
    | always => exact always
    | never => exact never
    | document ks =>
      have whole := Schema.document.sizeOf_spec ks
      refine document ks (fun name s declared => ?_) (fun s element => ?_)
      · exact ih _ (by have := sizeOf_property declared; omega) s rfl
      · exact ih _ (by have := sizeOf_items element; omega) s rfl

end Schema

section Stacked

variable {st : Stack} {h : Handling} {ks : List Keyword}

@[simp]
theorem Stack.enter_endless (level : Nat) : Stack.endless.enter level = .ok () := rfl

@[simp]
theorem Stack.copy_endless (level : Nat) (v : Value) : Stack.endless.copy level v = .ok v := rfl

/-- With endless room copying changes nothing. -/
theorem copyFields_endless (level : Nat) (fs : Fields Value) :
    copyFields .endless level fs = .ok fs :=
  mapM_ok_iff.2 (List.forall₂_same.2 fun _ _ => rfl)

/-- A member is known if its name is a property, and then it is prepared one level deeper. -/
theorem fateAmong_eq (st : Stack) (h : Handling) (ps : List (String × Schema)) (level : Nat)
    (name : String) (v : Value) :
    fateAmong st h ps level name v =
      (Fields.get? ps name).elim .unknown fun s => .known (prepareWithin st h s (level + 1) v) := by
  induction ps with
  | nil => rfl
  | cons e rest ih =>
    obtain ⟨other, s⟩ := e
    rw [fateAmong, Fields.get?_cons]
    split
    · rfl
    · exact ih

/-- A member is treated as the property of its name says. -/
theorem fateIn_eq (st : Stack) (h : Handling) (ks : List Keyword) (level : Nat) (name : String)
    (v : Value) :
    fateIn st h ks level name v =
      (Fields.get? (Keyword.propertiesOf ks) name).elim .unknown fun s =>
        .known (prepareWithin st h s (level + 1) v) := by
  induction ks with
  | nil => rfl
  | cons k rest ih =>
    cases k with
    | properties ps => exact fateAmong_eq st h ps level name v
    | _ => exact ih

/-- An item without a schema is treated as under one that admits everything. -/
theorem itemIn_eq (st : Stack) (h : Handling) (ks : List Keyword) (level : Nat) (v : Value) :
    itemIn st h ks level v =
      prepareWithin st h ((Keyword.itemsOf? ks).getD .always) (level + 1) v := by
  induction ks with
  | nil => rfl
  | cons k rest ih =>
    cases k with
    | items s => rfl
    | _ => exact ih

/-- Whether a member stays. -/
def keepsMember (h : Handling) (ps : List (String × Schema)) (e : String × Value) : Bool :=
  h.allowUnknown || Fields.contains ps e.1

/-- A declared member stays. -/
theorem keepsMember_of_property {ps : List (String × Schema)} {name : String} {s : Schema}
    (declared : Fields.get? ps name = some s) (v : Value) : keepsMember h ps (name, v) = true := by
  simp [keepsMember, Fields.contains, declared]

/-- A declared member is kept. -/
theorem mem_kept {ps : List (String × Schema)} {name : String} {s : Schema} {v : Value}
    {fs : Fields Value} (declared : Fields.get? ps name = some s) (inside : (name, v) ∈ fs) :
    (name, v) ∈ fs.filter (keepsMember h ps) :=
  List.mem_filter.2 ⟨inside, keepsMember_of_property declared v⟩

/-- A member that stays, on a stack: under the schema of its property, or copied. -/
def memberWithin (st : Stack) (h : Handling) (ps : List (String × Schema)) (level : Nat)
    (e : String × Value) : Except Failure (String × Value) :=
  ((Fields.get? ps e.1).elim (st.copy level e.2) fun s =>
    prepareWithin st h s (level + 1) e.2).map fun w => (e.1, w)

/-- The members of an object that stay, in their order, on a stack. -/
def membersWithin (st : Stack) (h : Handling) (ps : List (String × Schema)) (level : Nat)
    (fs : Fields Value) : Except Failure (Fields Value) :=
  (fs.filter (keepsMember h ps)).mapM (memberWithin st h ps level)

/-- A declared member is prepared by its schema, one level deeper. -/
theorem memberWithin_known {ps : List (String × Schema)} {name : String} {s : Schema}
    (declared : Fields.get? ps name = some s) (level : Nat) (v : Value) :
    memberWithin st h ps level (name, v) =
      (prepareWithin st h s (level + 1) v).map fun w => (name, w) := by
  simp only [memberWithin, declared, Option.elim_some]

/-- Any other member is copied. -/
theorem memberWithin_unknown {ps : List (String × Schema)} {name : String}
    (unknown : Fields.get? ps name = none) (level : Nat) (v : Value) :
    memberWithin st h ps level (name, v) = (st.copy level v).map fun w => (name, w) := by
  simp only [memberWithin, unknown, Option.elim_none]

/-- Settling members that have been told apart is preparing those that are kept. -/
theorem settle_eq (st : Stack) (h : Handling) (ks : List Keyword) (level : Nat)
    (fs : Fields Value) :
    settle st h level (fs.map fun e => (e.1, e.2, fateIn st h ks level e.1 e.2)) =
      membersWithin st h (Keyword.propertiesOf ks) level fs := by
  unfold membersWithin
  induction fs with
  | nil => rfl
  | cons e rest ih =>
    obtain ⟨name, v⟩ := e
    rw [List.map_cons, fateIn_eq]
    cases declared : Fields.get? (Keyword.propertiesOf ks) name with
    | none =>
      have fate : keepsMember h (Keyword.propertiesOf ks) (name, v) = h.allowUnknown := by
        simp [keepsMember, Fields.contains, declared]
      simp only [Option.elim_none, settle, ih]
      cases allowed : h.allowUnknown with
      | true =>
        rw [List.filter_cons_of_pos (fate.trans allowed), List.mapM_cons,
          memberWithin_unknown declared, if_pos rfl]
        cases st.copy level v <;> rfl
      | false =>
        rw [List.filter_cons_of_neg (by rw [fate, allowed]; exact Bool.false_ne_true)]
        rfl
    | some s =>
      have stays : keepsMember h (Keyword.propertiesOf ks) (name, v) = true :=
        keepsMember_of_property declared v
      simp only [Option.elim_some, settle, ih]
      rw [List.filter_cons_of_pos stays, List.mapM_cons, memberWithin_known declared]
      cases prepareWithin st h s (level + 1) v <;> rfl

/-- Where an object is declared nothing is coerced. -/
theorem coerced_object (h : Handling) (type : Keyword.declared? ks = some .object) (v : Value) :
    coerced h ks v = .ok v := by
  unfold coerced
  rw [type]
  cases h.coerceTypes with
  | false => rfl
  | true => simp only [coerce, ite_self]

/-- Where an array is declared nothing is coerced. -/
theorem coerced_array (h : Handling) (type : Keyword.declared? ks = some .array) (v : Value) :
    coerced h ks v = .ok v := by
  unfold coerced
  rw [type]
  cases h.coerceTypes with
  | false => rfl
  | true => simp only [coerce, ite_self]

/-- An object keeps its members, prepared, and after them gets the defaults of those it lacks. -/
theorem prepareWithin_object (st : Stack) (h : Handling)
    (type : Keyword.declared? ks = some .object) (level : Nat) (fs : Fields Value) :
    prepareWithin st h (.document ks) level (.object fs) = (do
      st.enter level
      let out ← membersWithin st h (Keyword.propertiesOf ks) level fs
      let defaults ← copyFields st level (missingDefaults ks out)
      pure (.object (out ++ defaults))) := by
  rw [prepareWithin, coerced_object h type, ← settle_eq]
  simp only [bind, Except.bind, type]

/-- The items of an array, each under the schema of the items. -/
theorem prepareWithin_array (st : Stack) (h : Handling)
    (type : Keyword.declared? ks = some .array) (level : Nat) (vs : List Value) :
    prepareWithin st h (.document ks) level (.list vs) = (do
      st.enter level
      let out ← vs.mapM (prepareWithin st h ((Keyword.itemsOf? ks).getD .always) (level + 1))
      pure (.list out)) := by
  have items : itemIn st h ks level =
      prepareWithin st h ((Keyword.itemsOf? ks).getD .always) (level + 1) :=
    funext (itemIn_eq st h ks level)
  rw [prepareWithin, coerced_array h type, items]
  simp only [bind, Except.bind, type]

/-- A value that is prepared as a whole: no object where one is asked for, and no array. -/
def Atomic (ks : List Keyword) (v : Value) : Prop :=
  match Keyword.declared? ks, v with
  | some .object, .object _ => False
  | some .array, .list _ => False
  | _, _ => True

/-- A value is an object where one is asked for, an array where one is, or prepared as a whole. -/
theorem atomic_or (ks : List Keyword) (v : Value) :
    (∃ fs, Keyword.declared? ks = some .object ∧ v = .object fs) ∨
      (∃ vs, Keyword.declared? ks = some .array ∧ v = .list vs) ∨ Atomic ks v := by
  unfold Atomic
  split
  next fs type => exact Or.inl ⟨fs, type, rfl⟩
  next vs type => exact Or.inr (Or.inl ⟨vs, type, rfl⟩)
  next => exact Or.inr (Or.inr trivial)

/-- A value without parts that are prepared is coerced and copied. -/
theorem prepareWithin_atomic (st : Stack) (h : Handling) {v : Value} (atomic : Atomic ks v)
    (level : Nat) :
    prepareWithin st h (.document ks) level v = (do
      st.enter level
      st.copy level (← coerced h ks v)) := by
  cases type : Keyword.declared? ks with
  | none =>
    rw [prepareWithin]
    cases coerced h ks v <;> simp only [bind, Except.bind, type]
  | some t =>
    unfold Atomic at atomic
    rw [type] at atomic
    rw [prepareWithin]
    cases t with
    | object =>
      rw [coerced_object h type]
      cases v <;> first | exact atomic.elim | simp only [bind, Except.bind, type]
    | array =>
      rw [coerced_array h type]
      cases v <;> first | exact atomic.elim | simp only [bind, Except.bind, type]
    | _ => cases coerced h ks v <;> simp only [bind, Except.bind, type]

/-- With room for every call it does not matter how deep a part is. -/
theorem prepareWithin_endless (s : Schema) :
    ∀ level v, prepareWithin .endless h s level v = prepare h s v := by
  induction s using Schema.induct with
  | always => intro level v; rfl
  | never => intro level v; rfl
  | document ks properties items =>
    intro level v
    rcases atomic_or ks v with ⟨fs, type, rfl⟩ | ⟨vs, type, rfl⟩ | atomic
    · have each : memberWithin .endless h (Keyword.propertiesOf ks) level =
          memberWithin .endless h (Keyword.propertiesOf ks) 0 := by
        funext e
        cases declared : Fields.get? (Keyword.propertiesOf ks) e.1 with
        | none => rw [memberWithin_unknown declared, memberWithin_unknown declared]; rfl
        | some s =>
          rw [memberWithin_known declared, memberWithin_known declared,
            properties _ s declared, properties _ s declared]
      rw [prepare, prepareWithin_object _ h type, prepareWithin_object _ h type, membersWithin, each]
      rfl
    · have each : prepareWithin .endless h ((Keyword.itemsOf? ks).getD .always) (level + 1) =
          prepareWithin .endless h ((Keyword.itemsOf? ks).getD .always) (0 + 1) := by
        funext v
        cases element : Keyword.itemsOf? ks with
        | none => rfl
        | some s => rw [Option.getD_some, items s element, items s element]
      rw [prepare, prepareWithin_array _ h type, prepareWithin_array _ h type, each]
      rfl
    · rw [prepare, prepareWithin_atomic _ h atomic, prepareWithin_atomic _ h atomic]
      rfl

end Stacked

section Preparation

variable {h : Handling} {ks : List Keyword}

/-- A member that stays, under the schema of its property if it has one. -/
def prepareMember (h : Handling) (ps : List (String × Schema)) (e : String × Value) :
    Except Failure (String × Value) :=
  ((Fields.get? ps e.1).elim (.ok e.2) fun s => prepare h s e.2).map fun w => (e.1, w)

/-- The members of an object that stay, in their order. -/
def prepareMembers (h : Handling) (ps : List (String × Schema)) (fs : Fields Value) :
    Except Failure (Fields Value) :=
  (fs.filter (keepsMember h ps)).mapM (prepareMember h ps)

/-- A declared member is prepared by its schema. -/
theorem prepareMember_known {ps : List (String × Schema)} {name : String} {s : Schema}
    (declared : Fields.get? ps name = some s) (v : Value) :
    prepareMember h ps (name, v) = (prepare h s v).map fun w => (name, w) := by
  simp only [prepareMember, declared, Option.elim_some]

/-- Any other member stays as it is. -/
theorem prepareMember_unknown {ps : List (String × Schema)} {name : String}
    (unknown : Fields.get? ps name = none) (v : Value) :
    prepareMember h ps (name, v) = .ok (name, v) := by
  simp only [prepareMember, unknown, Option.elim_none, Except.map]

/-- A prepared member keeps its name. -/
theorem prepareMember_ok_iff {ps : List (String × Schema)} {e d : String × Value} :
    prepareMember h ps e = .ok d ↔ e.1 = d.1 ∧
      ((Fields.get? ps e.1).elim (.ok e.2) fun s => prepare h s e.2) = .ok d.2 := by
  obtain ⟨name, w⟩ := d
  unfold prepareMember
  cases (Fields.get? ps e.1).elim (.ok e.2) fun s => prepare h s e.2 <;>
    simp [Except.map]

/-- With endless room members are prepared as without a bound. -/
theorem membersWithin_endless (ps : List (String × Schema)) (level : Nat) (fs : Fields Value) :
    membersWithin .endless h ps level fs = prepareMembers h ps fs := by
  have each : memberWithin .endless h ps level = prepareMember h ps := by
    funext e
    unfold memberWithin prepareMember
    simp only [prepareWithin_endless, Stack.copy_endless]
  rw [membersWithin, each, prepareMembers]

/-- An object: its members first, then the defaults of those that are missing. -/
theorem prepare_object (h : Handling) (type : Keyword.declared? ks = some .object)
    (fs : Fields Value) :
    prepare h (.document ks) (.object fs) =
      (prepareMembers h (Keyword.propertiesOf ks) fs).map fun out =>
        .object (out ++ missingDefaults ks out) := by
  rw [prepare, prepareWithin_object _ h type, membersWithin_endless]
  simp only [Stack.enter_endless, copyFields_endless]
  cases prepareMembers h (Keyword.propertiesOf ks) fs <;> rfl

/-- An array: its elements one by one. -/
theorem prepare_array (h : Handling) (type : Keyword.declared? ks = some .array) (vs : List Value) :
    prepare h (.document ks) (.list vs) =
      (vs.mapM fun v => (Keyword.itemsOf? ks).elim (.ok v) fun s => prepare h s v).map .list := by
  have each : prepareWithin .endless h ((Keyword.itemsOf? ks).getD .always) (0 + 1) =
      fun v => (Keyword.itemsOf? ks).elim (.ok v) fun s => prepare h s v := by
    funext v
    rw [prepareWithin_endless]
    cases Keyword.itemsOf? ks <;> rfl
  rw [prepare, prepareWithin_array _ h type, each]
  cases vs.mapM fun v => (Keyword.itemsOf? ks).elim (.ok v) fun s => prepare h s v <;> rfl

theorem prepare_object_ok_iff {h : Handling} (type : Keyword.declared? ks = some .object)
    {fs : Fields Value} {d : Value} :
    prepare h (.document ks) (.object fs) = .ok d ↔
      ∃ out, prepareMembers h (Keyword.propertiesOf ks) fs = .ok out ∧
        .object (out ++ missingDefaults ks out) = d := by
  rw [prepare_object h type]
  cases prepareMembers h (Keyword.propertiesOf ks) fs <;> simp [Except.map]

theorem prepare_array_ok_iff {h : Handling} (type : Keyword.declared? ks = some .array)
    {vs : List Value} {d : Value} :
    prepare h (.document ks) (.list vs) = .ok d ↔
      ∃ out,
        (vs.mapM fun v => (Keyword.itemsOf? ks).elim (.ok v) fun s => prepare h s v) = .ok out ∧
        .list out = d := by
  rw [prepare_array h type]
  cases vs.mapM fun v => (Keyword.itemsOf? ks).elim (.ok v) fun s => prepare h s v <;>
    simp [Except.map]

/-- Any other value is coerced as the keywords ask for it. -/
theorem prepare_atomic (h : Handling) {v : Value} (atomic : Atomic ks v) :
    prepare h (.document ks) v = coerced h ks v := by
  rw [prepare, prepareWithin_atomic _ h atomic]
  cases coerced h ks v <;> rfl

end Preparation

/-- Payloads that are prepared alike are answered alike. -/
theorem Validator.validate_congr {c : Validator} {p q : Value}
    (alike : prepare c.handling c.schema p = prepare c.handling c.schema q) :
    c.validate p = c.validate q := by
  simp only [validate, report, examine, alike]

end ShapeContract.Wire
