import ShapeContract.Proofs.Wire.Preparing
import ShapeContract.Wire.Emission

/-!
# Members that a schema does not declare

Where unknown members are dropped, payloads that differ only in such members are prepared alike, so
every validator answers them alike. `Indistinct` says what such payloads are: at each object that a
schema asks for, members that it does not declare may be there or not, with any values.
-/

set_option autoImplicit false

namespace ShapeContract.Wire

mutual

/-- Two values that differ only in members that the schema does not declare. -/
inductive Indistinct : Schema → Value → Value → Prop
  | same (s : Schema) (v : Value) : Indistinct s v v
  | object {ks : List Keyword} {fs gs : Fields Value} (type : Keyword.declared? ks = some .object)
      (members : IndistinctMembers (Keyword.propertiesOf ks) fs gs) :
      Indistinct (.document ks) (.object fs) (.object gs)
  | array {ks : List Keyword} {s : Schema} {vs ws : List Value}
      (type : Keyword.declared? ks = some .array) (element : Keyword.itemsOf? ks = some s)
      (items : IndistinctItems s vs ws) : Indistinct (.document ks) (.list vs) (.list ws)

/-- The members of two objects: anywhere in either there can be one that no property names. -/
inductive IndistinctMembers : List (String × Schema) → Fields Value → Fields Value → Prop
  | nil (ps : List (String × Schema)) : IndistinctMembers ps [] []
  | kept {ps : List (String × Schema)} {fs gs : Fields Value} (name : String) (v : Value)
      (rest : IndistinctMembers ps fs gs) : IndistinctMembers ps ((name, v) :: fs) ((name, v) :: gs)
  | declared {ps : List (String × Schema)} {fs gs : Fields Value} {name : String} {s : Schema}
      {v w : Value} (property : Fields.get? ps name = some s) (value : Indistinct s v w)
      (rest : IndistinctMembers ps fs gs) : IndistinctMembers ps ((name, v) :: fs) ((name, w) :: gs)
  | inserted {ps : List (String × Schema)} {fs gs : Fields Value} {name : String}
      (unknown : Fields.get? ps name = none) (v : Value) (rest : IndistinctMembers ps fs gs) :
      IndistinctMembers ps fs ((name, v) :: gs)
  | removed {ps : List (String × Schema)} {fs gs : Fields Value} {name : String}
      (unknown : Fields.get? ps name = none) (v : Value) (rest : IndistinctMembers ps fs gs) :
      IndistinctMembers ps ((name, v) :: fs) gs

inductive IndistinctItems : Schema → List Value → List Value → Prop
  | nil (s : Schema) : IndistinctItems s [] []
  | cons {s : Schema} {v w : Value} {vs ws : List Value} (item : Indistinct s v w)
      (rest : IndistinctItems s vs ws) : IndistinctItems s (v :: vs) (w :: ws)

end

section Members

variable {h : Handling} {ps : List (String × Schema)}

/-- An unknown member leaves no trace. -/
theorem prepareMembers_unknown (closed : h.allowUnknown = false) {name : String}
    (unknown : Fields.get? ps name = none) (v : Value) (fs : Fields Value) :
    prepareMembers h ps ((name, v) :: fs) = prepareMembers h ps fs := by
  have goes : keepsMember h ps (name, v) = false := by
    simp [keepsMember, Fields.contains, closed, unknown]
  rw [prepareMembers, List.filter_cons_of_neg (by simp [goes]), prepareMembers]

/-- Members of one name that are prepared alike, and later ones that are. -/
theorem prepareMembers_congr {name : String} {v w : Value} {fs gs : Fields Value}
    (head : prepareMember h ps (name, v) = prepareMember h ps (name, w))
    (rest : prepareMembers h ps fs = prepareMembers h ps gs) :
    prepareMembers h ps ((name, v) :: fs) = prepareMembers h ps ((name, w) :: gs) := by
  unfold prepareMembers at rest ⊢
  cases stays : keepsMember h ps (name, v) with
  | true =>
    rw [List.filter_cons_of_pos stays, List.filter_cons_of_pos (show keepsMember h ps (name, w) = _
      from stays), List.mapM_cons, List.mapM_cons, head, rest]
  | false =>
    rw [List.filter_cons_of_neg (by simp [stays]), List.filter_cons_of_neg
      (by simpa [keepsMember] using stays), rest]

theorem prepareMembers_append_congr (before : Fields Value) {fs gs : Fields Value}
    (rest : prepareMembers h ps fs = prepareMembers h ps gs) :
    prepareMembers h ps (before ++ fs) = prepareMembers h ps (before ++ gs) := by
  induction before with
  | nil => exact rest
  | cons e before ih => exact prepareMembers_congr rfl ih

theorem prepareMembers_erase (closed : h.allowUnknown = false) {name : String}
    (unknown : Fields.get? ps name = none) (fs : Fields Value) :
    prepareMembers h ps (fs.erase name) = prepareMembers h ps fs := by
  induction fs with
  | nil => rfl
  | cons e rest ih =>
    obtain ⟨other, v⟩ := e
    by_cases same : other = name
    · subst same
      rw [prepareMembers_unknown closed unknown, ← ih]
      simp [Fields.erase]
    · have kept :
          Fields.erase ((other, v) :: rest) name = (other, v) :: Fields.erase rest name := by
        simp [Fields.erase, same]
      rw [kept]
      exact prepareMembers_congr rfl ih

end Members

mutual

/-- **What a schema does not declare makes no difference to what is prepared.** -/
theorem prepare_eq_of_indistinct {h : Handling} (closed : h.allowUnknown = false) :
    ∀ {s : Schema} {v w : Value}, Indistinct s v w → prepare h s v = prepare h s w
  | _, _, _, .same _ _ => rfl
  | _, _, _, .object type members => by
    rw [prepare_object h type, prepare_object h type,
      prepareMembers_eq_of_indistinct closed members]
  | _, _, _, .array type element items => by
    rw [prepare_array h type, prepare_array h type]
    simp only [element, Option.elim_some]
    rw [mapM_prepare_eq_of_indistinct closed items]

theorem prepareMembers_eq_of_indistinct {h : Handling} (closed : h.allowUnknown = false) :
    ∀ {ps : List (String × Schema)} {fs gs : Fields Value}, IndistinctMembers ps fs gs →
      prepareMembers h ps fs = prepareMembers h ps gs
  | _, _, _, .nil _ => rfl
  | _, _, _, .kept name v rest =>
    prepareMembers_congr rfl (prepareMembers_eq_of_indistinct closed rest)
  | _, _, _, .declared property value rest => by
    refine prepareMembers_congr ?_ (prepareMembers_eq_of_indistinct closed rest)
    rw [prepareMember_known property, prepareMember_known property,
      prepare_eq_of_indistinct closed value]
  | _, _, _, .inserted unknown v rest => by
    rw [prepareMembers_unknown closed unknown, prepareMembers_eq_of_indistinct closed rest]
  | _, _, _, .removed unknown v rest => by
    rw [prepareMembers_unknown closed unknown, prepareMembers_eq_of_indistinct closed rest]

theorem mapM_prepare_eq_of_indistinct {h : Handling} (closed : h.allowUnknown = false) :
    ∀ {s : Schema} {vs ws : List Value}, IndistinctItems s vs ws →
      vs.mapM (prepare h s) = ws.mapM (prepare h s)
  | _, _, _, .nil _ => rfl
  | _, _, _, .cons item rest => by
    rw [List.mapM_cons, List.mapM_cons, prepare_eq_of_indistinct closed item,
      mapM_prepare_eq_of_indistinct closed rest]

end

/-- **Undeclared members make no difference to the answer**: verdict, data and every message. -/
theorem validate_eq_of_indistinct (c : Validator) (closed : c.handling.allowUnknown = false)
    {p q : Value} (indistinct : Indistinct c.schema p q) : c.validate p = c.validate q :=
  Validator.validate_congr (prepare_eq_of_indistinct closed indistinct)

section

attribute [local instance] CharacterNames.common

/-- A rejected list of places, whose message quotes it, with a role beside and a zip code inside. -/
theorem validate_eq_of_indistinct_places :
    let city : Rule := ⟨{ type := .string, required := some (.bool true) }, none, none⟩
    let place : Rule := ⟨{ type := .object }, none, some [("city", city)]⟩
    let places : Rule := ⟨{ type := .array, minItems := some (.int 2) }, some place, none⟩
    let tree : Rule := ⟨{ type := .object }, none, some [("places", places)]⟩
    let c : Validator := ⟨Schema.ofDocument (ofTree false tree), ⟨true, false⟩⟩
    let p : Value := .object [("places", .list [.object [("city", .str "Pune")]])]
    let q : Value := .object [("role", .str "ADMIN"),
      ("places", .list [.object [("city", .str "Pune"), ("zip", .list [.int 1])]])]
    c.handling.allowUnknown = false ∧ Indistinct c.schema p q ∧ c.validate p = c.validate q := by
  intro city place places tree c p q
  have indistinct : Indistinct c.schema p q := by
    refine .object rfl (.inserted rfl _ (.declared rfl ?_ (.nil _)))
    refine .array rfl rfl (.cons ?_ (.nil _))
    exact .object rfl (.kept _ _ (.inserted rfl _ (.nil _)))
  exact ⟨rfl, indistinct, validate_eq_of_indistinct c rfl indistinct⟩

end

end ShapeContract.Wire
