import ShapeContract.Proofs.Rule.Keyed
import ShapeContract.Proofs.Wire.Open

/-!
# The forms of wire documents

A document is that of an object, of an array, or of a value without parts, and so is its schema:
which keywords it has, which default, and what a value breaks of it.
-/

set_option autoImplicit false

namespace ShapeContract

namespace Rule

/-- An entry is written if there is something to write. -/
theorem mem_entry_iff {name other : String} {v : Value} {b : Option Value} :
    (other, v) ∈ entry name b ↔ other = name ∧ b = some v := by
  cases b <;> simp [entry, eq_comm]

/-- Induction over a rule by its type: an object with its children, an array with its element rule,
or a rule whose document has no parts. -/
@[elab_as_elim]
theorem inductByType {P : Rule → Prop}
    (object : ∀ f items children, f.type = .object → (∀ e ∈ children.getD [], P e.2) →
      P ⟨f, items, children⟩)
    (array : ∀ f items children, f.type = .array → (∀ r, items = some r → P r) →
      P ⟨f, items, children⟩)
    (flat : ∀ r : Rule, r.type ≠ .object → r.type ≠ .array → P r) (r : Rule) : P r := by
  induction r using Rule.induct with
  | node f items children element kids =>
    by_cases isObject : f.type = .object
    · exact object f items children isObject kids
    · by_cases isArray : f.type = .array
      · exact array f items children isArray element
      · exact flat _ isObject isArray

end Rule

theorem forall_zipIdx_iff {α : Type} (P : α → Prop) (xs : List α) :
    (∀ e ∈ xs.zipIdx, P e.1) ↔ ∀ x ∈ xs, P x := by
  conv_rhs => rw [← List.zipIdx_map_fst 0 xs, List.forall_mem_map]

namespace Wire

open Schema (keywordsOf ofDocument membersOf)

/-! ## Documents -/

/-- The document of an object, with whatever stands for its properties. -/
def objectDocument (a : Bool) (properties : Value) (required : List Value) (default : Option Value) :
    Value :=
  .object ([("type", .str "object"), ("properties", properties)] ++ requiredEntry required ++
    [("additionalProperties", .bool a)] ++ Rule.entry "default" default)

/-- The document of an array. -/
def arrayDocument (f : Facets) (items : Value) : Value :=
  .object (arrayKeywords f items ++ Rule.entry "default" f.default)

/-- The document of an object: its children as properties, the required names, its default. -/
theorem ofRule_of_object (a : Bool) {f : Facets} (isObject : f.type = .object) (items : Option Rule)
    (children : Option (List (String × Rule))) :
    ofRule a ⟨f, items, children⟩ = objectDocument a (.object (ofChildren a children))
      (requiredNames (children.getD [])) f.default := by
  rw [ofRule]
  simp only [isObject]
  rfl

/-- The document of an array: that of its elements, and its counts. -/
theorem ofRule_of_array (a : Bool) {f : Facets} (isArray : f.type = .array) (items : Option Rule)
    (children : Option (List (String × Rule))) :
    ofRule a ⟨f, items, children⟩ = arrayDocument f (ofItems a items) := by
  rw [ofRule]
  simp only [isArray]
  rfl

/-- Only the documents of objects and arrays speak of unknown members. -/
theorem ofRule_of_flat (a b : Bool) {r : Rule} (notObject : r.type ≠ .object)
    (notArray : r.type ≠ .array) : ofRule a r = ofRule b r := by
  obtain ⟨f, items, children⟩ := r
  rw [ofRule, ofRule]
  cases type : f.type with
  | object => exact absurd type notObject
  | array => exact absurd type notArray
  | _ => rfl

/-- The document of a tree is that of an object without a default. -/
theorem ofTree_eq_objectDocument (a : Bool) (t : Rule) :
    ofTree a t = objectDocument a (.object (ofFields a t.kids)) (requiredNames t.kids) none :=
  ofRule_of_object a rfl none (some t.kids)

/-! ## Schemas -/

/-- The default that ends the keywords of a document. -/
def defaultKeyword (default : Option Value) : List Keyword := (default.map Keyword.default).toList

def Schema.object (a : Bool) (ps : List (String × Schema)) (required : List String)
    (default : Option Value) : Schema :=
  .document (objectSchema a ps required ++ defaultKeyword default)

def Schema.array (s : Schema) (counts : List Keyword) (default : Option Value) : Schema :=
  .document ([.type .array, .items s] ++ counts ++ defaultKeyword default)

/-- The keywords on the number of items. -/
def countKeywords [CharacterNames] (f : Facets) : List Keyword :=
  keywordsOf (Rule.entry "minItems" f.minItems ++ Rule.entry "maxItems" f.maxItems)

/-- A schema of values without parts, none of them an integer alone. -/
def Schema.Flat (s : Schema) : Prop :=
  ∃ ks, s = .document ks ∧
    ∀ t, Keyword.declared? ks = some t → t = .string ∨ t = .number ∨ t = .boolean

theorem keywordsOf_default [CharacterNames] (default : Option Value) :
    keywordsOf (Rule.entry "default" default) = defaultKeyword default := by
  cases default with
  | none => rfl
  | some v => exact keywordsOf_plain rfl v

/-- An empty list of required names is not written. -/
theorem keywordsOf_requiredEntry [CharacterNames] {required : List Value} {names : List String}
    (texts : required.mapM Value.text? = some names) :
    keywordsOf (requiredEntry required) = if names.isEmpty then [] else [.required names] := by
  cases required with
  | nil => cases texts; rfl
  | cons v rest =>
    have some' : names.isEmpty = false := by
      rw [List.mapM_cons] at texts
      cases head : v.text? with
      | none => rw [head] at texts; cases texts
      | some name =>
        cases tail : rest.mapM Value.text? with
        | none => rw [head, tail] at texts; cases texts
        | some others => rw [head, tail] at texts; cases texts; rfl
    rw [some', requiredEntry]
    change keywordsOf [("required", .list (v :: rest))] = _
    rw [keywordsOf_plain rfl]
    change (((v :: rest).mapM Value.text?).map Keyword.required).toList = _
    rw [texts]
    rfl

/-- The schema of the document of an object. -/
theorem ofDocument_objectDocument [CharacterNames] (a : Bool) (properties : Value)
    {required : List Value}
    {names : List String} (texts : required.mapM Value.text? = some names) (default : Option Value) :
    ofDocument (objectDocument a properties required default) =
      Schema.object a (Schema.propertiesOf properties) names default := by
  have leading : keywordsOf [("type", .str "object"), ("properties", properties)] =
      [.type .object, .properties (Schema.propertiesOf properties)] := by
    rw [keywordsOf_cons]
    cases properties <;> rfl
  rw [objectDocument, ofDocument, keywordsOf_append, keywordsOf_append, keywordsOf_append, leading,
    keywordsOf_requiredEntry texts, keywordsOf_additional, keywordsOf_default]
  rfl

/-- The required names are those of the required children, in order. -/
theorem text?_requiredNames_eq (cs : Fields Rule) :
    (requiredNames cs).mapM Value.text? = some (ownRequired cs) := by
  rw [requiredNames_eq, mapM_text?_texts]

/-- Each child has its document under its name. -/
theorem ofFields_eq (a : Bool) (cs : Fields Rule) : ofFields a cs = cs.mapValues (ofRule a) := by
  induction cs with
  | nil => rfl
  | cons e rest ih =>
    obtain ⟨name, c⟩ := e
    rw [ofFields, ih]
    rfl

theorem ofChildren_eq (a : Bool) (children : Option (List (String × Rule))) :
    ofChildren a children = Fields.mapValues (ofRule a) (children.getD []) := by
  cases children with
  | none => rfl
  | some cs => exact ofFields_eq a cs

/-- The schema of a rule. -/
def schemaOf [CharacterNames] (a : Bool) (r : Rule) : Schema := ofDocument (ofRule a r)

/-- The schema of the items of an array: of any value, if there is no element rule. -/
def itemSchema [CharacterNames] (a : Bool) (items : Option Rule) :
    Schema := ofDocument (ofItems a items)

/-- Each child has its schema under its name. -/
theorem propertiesOf_mapValues [CharacterNames] (a : Bool) (cs : Fields Rule) :
    Schema.propertiesOf (.object (cs.mapValues (ofRule a))) = cs.mapValues (schemaOf a) := by
  rw [Schema.propertiesOf, membersOf_eq]
  exact List.map_map

/-- The schema of an object: those of its children, the required names, its default. -/
theorem schemaOf_of_object [CharacterNames] (a : Bool) {f : Facets} (isObject : f.type = .object)
    (items : Option Rule) (children : Option (List (String × Rule))) :
    schemaOf a ⟨f, items, children⟩ = Schema.object a
      (Fields.mapValues (schemaOf a) (children.getD [])) (ownRequired (children.getD [])) f.default := by
  rw [schemaOf, ofRule_of_object a isObject,
    ofDocument_objectDocument a _ (text?_requiredNames_eq _), ofChildren_eq, propertiesOf_mapValues]

/-- The schema of an array: that of its elements, and its counts. -/
theorem schemaOf_of_array [CharacterNames] (a : Bool) {f : Facets} (isArray : f.type = .array)
    (items : Option Rule)
    (children : Option (List (String × Rule))) :
    schemaOf a ⟨f, items, children⟩ =
      Schema.array (itemSchema a items) (countKeywords f) f.default := by
  obtain ⟨fs, document⟩ := ofItems_object a items
  have leading : keywordsOf [("type", .str "array"), ("items", .object fs)] =
      [.type .array, .items (.document (keywordsOf fs))] := by
    rw [keywordsOf_cons, keywordsOf_items]
    rfl
  rw [schemaOf, itemSchema, ofRule_of_array a isArray, document, arrayDocument, ofDocument,
    arrayKeywords, keywordsOf_append, List.append_assoc, keywordsOf_append, leading,
    keywordsOf_default]
  rfl

/-- The schema of any other rule does not depend on whether objects are open. -/
theorem schemaOf_of_flat [CharacterNames] (a b : Bool) {r : Rule} (notObject : r.type ≠ .object)
    (notArray : r.type ≠ .array) : schemaOf a r = schemaOf b r :=
  congrArg ofDocument (ofRule_of_flat a b notObject notArray)

/-- A document that begins with a type declares it. -/
theorem declared?_keywordsOf_type [CharacterNames] (t : TypeName) (rest : Fields Value) :
    Keyword.declared? (keywordsOf (("type", .str t.text) :: rest)) = some t := by
  rw [keywordsOf_cons, keywordsOf_plain rfl]
  cases t <;> rfl

/-- The schema of a rule that is neither object nor array has no schemas inside. -/
theorem flat_schemaOf [CharacterNames] (a : Bool) {r : Rule} (notObject : r.type ≠ .object)
    (notArray : r.type ≠ .array) : (schemaOf a r).Flat := by
  obtain ⟨f, items, children⟩ := r
  unfold schemaOf
  rw [ofRule, ofDocument]
  refine ⟨_, rfl, ?_⟩
  have typed : ∀ t u rest, Keyword.declared? (keywordsOf (("type", .str (TypeName.text t)) :: rest)) =
      some u → u = t := by
    intro t u rest declared
    rw [declared?_keywordsOf_type] at declared
    exact (Option.some.inj declared).symm
  have untyped : ∀ u, Keyword.declared? (keywordsOf ([] ++ Rule.entry "default" f.default)) =
      some u → False := by
    intro u declared
    rw [List.nil_append, keywordsOf_default] at declared
    cases default : f.default with
    | none => rw [default] at declared; cases declared
    | some v => rw [default] at declared; cases declared
  intro t declared
  cases type : f.type with
  | object => exact absurd type notObject
  | array => exact absurd type notArray
  | string => rw [type] at declared; exact .inl (typed .string t _ declared)
  | number => rw [type] at declared; exact .inr (.inl (typed .number t _ declared))
  | boolean => rw [type] at declared; exact .inr (.inr (typed .boolean t _ declared))
  | date => rw [type] at declared; exact .inl (typed .string t _ declared)
  | objectId => rw [type] at declared; exact .inl (typed .string t _ declared)
  | mixed => rw [type] at declared; exact (untyped t declared).elim
  | buffer => rw [type] at declared; exact (untyped t declared).elim

/-! ## Defaults -/

theorem ne_default_of_ofPlain? [CharacterNames] {name : String} (other : name ≠ "default")
    {v : Value} {k : Keyword}
    (read : Keyword.ofPlain? name v = some k) (w : Value) : k ≠ .default w := by
  rintro rfl
  unfold Keyword.ofPlain? at read
  split at read
  case h_9 => simp [Option.bind_eq_some_iff] at read
  case h_12 => exact other rfl
  all_goals (try split at read) <;> simp_all

/-- No keyword but the one for it gives a default. -/
theorem default?_keywordsOf_single [CharacterNames] {name : String} (other : name ≠ "default")
    (v : Value) :
    Keyword.default? (keywordsOf [(name, v)]) = none := by
  by_cases word : plain name = true
  · rw [keywordsOf_plain word]
    cases read : Keyword.ofPlain? name v with
    | none => rfl
    | some k =>
      have apart := ne_default_of_ofPlain? other read
      cases k with
      | default w => exact absurd rfl (apart w)
      | _ => rfl
  · have structural : name = "properties" ∨ name = "additionalProperties" ∨ name = "items" := by
      simpa [plain, or_iff_not_imp_left] using word
    rcases structural with rfl | rfl | rfl <;> cases v <;> rfl

/-- The default of a document is the one that it ends with. -/
theorem default?_keywordsOf [CharacterNames] {fs : Fields Value} (alone : "default" ∉ fs.keys)
    (default : Option Value) :
    Keyword.default? (keywordsOf (fs ++ Rule.entry "default" default)) = default := by
  induction fs with
  | nil =>
    rw [List.nil_append, keywordsOf_default]
    cases default <;> rfl
  | cons e rest ih =>
    obtain ⟨name, v⟩ := e
    obtain ⟨other, later⟩ := not_or.1 (mt List.mem_cons.2 alone)
    have single := default?_keywordsOf_single (Ne.symm other) v
    rw [Keyword.default?] at single ih ⊢
    rw [List.cons_append, keywordsOf_cons, List.findSome?_append, single, ih later, Option.none_or]

/-- The default of a rule is that of its schema. -/
theorem default?_schemaOf_of_flat [CharacterNames] (a : Bool) {r : Rule}
    (notObject : r.type ≠ .object)
    (notArray : r.type ≠ .array) : (schemaOf a r).default? = r.facets.default := by
  obtain ⟨f, items, children⟩ := r
  unfold schemaOf
  rw [ofRule, ofDocument]
  refine default?_keywordsOf ?_ f.default
  cases type : f.type with
  | object => exact absurd type notObject
  | array => exact absurd type notArray
  | string =>
    simp [stringKeywords, Fields.keys, Rule.mem_entry_iff]
  | number =>
    simp [numberKeywords, Fields.keys, Rule.mem_entry_iff]
  | _ => simp [dateKeywords, objectIdKeywords, Fields.keys]

/-! ## Checks -/

/-- The properties of an object schema are those that it was made of. -/
theorem propertiesOf_object (a : Bool) (ps : List (String × Schema)) (required : List String)
    (default : Option Value) :
    Keyword.propertiesOf (objectSchema a ps required ++ defaultKeyword default) = ps := rfl

/-- The default of an object schema is the one that it was made of. -/
theorem default?_object (a : Bool) (ps : List (String × Schema)) (required : List String)
    (default : Option Value) : (Schema.object a ps required default).default? = default := by
  cases default <;> cases a <;> cases required <;> rfl

/-- A default is not checked against. -/
theorem checkAll_default (declared : List String) (default : Option Value) (v : Value) :
    checkAll declared (defaultKeyword default) v = [] := by
  cases default <;> rfl

/-- What a value breaks of an object: its type, its properties, the required names, the unknown
members. -/
theorem check_object (a : Bool) (ps : List (String × Schema)) (required : List String)
    (default : Option Value) (v : Value) :
    check (.object a ps required default) v =
      checkTypes [.object] v ++
        (match v.members? with
          | some fs => checkProperties ps fs ++ missing required fs
          | none => []) ++
        checkKeyword (ps.map Prod.fst) (.additional (if a then .always else .never)) v := by
  have names : checkAll (ps.map Prod.fst)
      (if required.isEmpty then [] else [.required required]) v =
      match v.members? with
        | some fs => missing required fs
        | none => [] := by
    cases required with
    | nil =>
      cases v.members? <;> rfl
    | cons name rest => exact List.append_nil _
  have properties : checkKeyword (ps.map Prod.fst) (.properties ps) v =
      match v.members? with
        | some fs => checkProperties ps fs
        | none => [] := rfl
  have type : checkKeyword (ps.map Prod.fst) (.type .object) v = checkTypes [.object] v := rfl
  rw [Schema.object, check, propertiesOf_object, checkAll_eq_flatMap, List.flatMap_append,
    ← checkAll_eq_flatMap _ (defaultKeyword default), checkAll_default, objectSchema]
  simp only [List.flatMap_append, List.flatMap_cons, List.flatMap_nil, List.append_nil, properties,
    ← checkAll_eq_flatMap, names, type]
  cases v.members? <;> simp only [List.append_assoc, List.append_nil]

/-- Moving violations down a step neither adds nor removes one. -/
theorem within_eq_nil_iff {step : String} {s : Schema} {es : List Violation} :
    within step s es = [] ↔ es = [] := by
  cases s <;> simp [within]

/-- The members of an object pass if each declared one that is there passes its schema. -/
theorem checkProperties_eq_nil_iff {ps : List (String × Schema)} {fs : Fields Value} :
    checkProperties ps fs = [] ↔
      ∀ name s, (name, s) ∈ ps → ∀ v, fs.get? name = some v → check s v = [] := by
  rw [checkProperties_eq_flatMap, List.flatMap_eq_nil_iff]
  constructor
  · intro each name s inside v present
    have clean := each _ inside
    simp only [present] at clean
    exact within_eq_nil_iff.1 clean
  · rintro each ⟨name, s⟩ inside
    cases present : fs.get? name with
    | none => rfl
    | some v => exact within_eq_nil_iff.2 (each name s inside v present)

/-- Nothing is missing if every required name is there. -/
theorem missing_eq_nil_iff {required : List String} {fs : Fields Value} :
    missing required fs = [] ↔ ∀ name ∈ required, fs.contains name = true := by
  simp [missing, List.filter_eq_nil_iff]

/-- What an object schema accepts: a mapping whose members pass, with every required name and, if it
is closed, no other. -/
theorem check_object_eq_nil_iff {a : Bool} {ps : List (String × Schema)} {required : List String}
    {default : Option Value} {v : Value} :
    check (.object a ps required default) v = [] ↔
      ∃ fs, v.members? = some fs ∧
        (∀ name s, (name, s) ∈ ps → ∀ w, fs.get? name = some w → check s w = []) ∧
        (∀ name ∈ required, fs.contains name = true) ∧
        (a = true ∨ extras (ps.map Prod.fst) v = []) := by
  have additional : checkKeyword (ps.map Prod.fst) (.additional (if a then .always else .never)) v =
      [] ↔ a = true ∨ extras (ps.map Prod.fst) v = [] := by
    cases a with
    | true => simp [checkKeyword, check, within]
    | false => simp [checkKeyword, demand, List.isEmpty_iff]
  have type : checkTypes [.object] v = [] ↔ v.members?.isSome = true := by
    cases members : v.members? <;> simp [checkTypes, demand, admits_object, members]
  rw [check_object, List.append_eq_nil_iff, List.append_eq_nil_iff, additional, type]
  cases members : v.members? with
  | none => simp
  | some fs =>
    simp only [List.append_eq_nil_iff, checkProperties_eq_nil_iff, missing_eq_nil_iff,
      Option.isSome_some, true_and, Option.some.injEq, exists_eq_left', and_assoc]

/-- A list passes if each element does. -/
theorem checkKeyword_items_eq_nil_iff {declared : List String} {s : Schema} {vs : List Value} :
    checkKeyword declared (.items s) (.list vs) = [] ↔ ∀ v ∈ vs, check s v = [] := by
  change (vs.zipIdx.flatMap fun e => within (Decimal.text e.2) s (check s e.1)) = [] ↔ _
  simp only [List.flatMap_eq_nil_iff, within_eq_nil_iff]
  exact forall_zipIdx_iff (fun v => check s v = []) vs

section Arrays

variable {s : Schema} {counts : List Keyword} {default : Option Value}
  (noProperties : Keyword.propertiesOf (counts ++ defaultKeyword default) = []) (v : Value)

include noProperties

/-- What a value breaks of an array: its type, its items, and what is said of their number. -/
theorem check_array : check (.array s counts default) v =
    checkTypes [.array] v ++ checkKeyword [] (.items s) v ++
      counts.flatMap fun k => checkKeyword [] k v := by
  have properties : Keyword.propertiesOf ([.type .array, .items s] ++ counts ++
      defaultKeyword default) = [] := noProperties
  rw [Schema.array, check, properties, checkAll_eq_flatMap, List.flatMap_append,
    ← checkAll_eq_flatMap _ (defaultKeyword default), List.map_nil, checkAll_default,
    List.append_nil, List.flatMap_append, List.flatMap_cons, List.flatMap_cons, List.flatMap_nil,
    List.append_nil]
  rfl

/-- What an array schema accepts: a list whose elements pass and whose length the counts allow. -/
theorem check_array_eq_nil_iff :
    check (.array s counts default) v = [] ↔
      ∃ vs, v = .list vs ∧ (∀ w ∈ vs, check s w = []) ∧
        ∀ k ∈ counts, checkKeyword [] k v = [] := by
  have type : checkTypes [.array] v = [] ↔ ∃ vs, v = .list vs := by
    cases v <;> simp [checkTypes, demand, TypeName.admits]
  rw [check_array noProperties, List.append_eq_nil_iff, List.append_eq_nil_iff, type,
    List.flatMap_eq_nil_iff]
  constructor
  · rintro ⟨⟨⟨vs, rfl⟩, items⟩, counts⟩
    exact ⟨vs, rfl, checkKeyword_items_eq_nil_iff.1 items, counts⟩
  · rintro ⟨vs, rfl, items, counts⟩
    exact ⟨⟨⟨vs, rfl⟩, checkKeyword_items_eq_nil_iff.2 items⟩, counts⟩

end Arrays

end Wire

end ShapeContract
