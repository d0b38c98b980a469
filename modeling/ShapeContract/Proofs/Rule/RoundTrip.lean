import ShapeContract.Proofs.Rule.Keyed

/-!
# Rules through their records

A record says under each wire name what the facet of that name is, and nothing where it is not set.
So a rule that is read from its own record is the rule again, but for defaults that are null: these
are not written. `Rule.ofValue_toValue` says so of every rule that can be built.
-/

set_option autoImplicit false

namespace ShapeContract

/-- The facets that are single values; the list of choices and the default are apart. -/
def Facets.singles (f : Facets) : List (Option Value) :=
  [f.required, f.minLength, f.maxLength, f.pattern, f.min, f.max, f.minItems, f.maxItems]

namespace Rule

/-- A rule that can be built: at every node a facet that is null is not set, a pattern is a text,
and an object has a mapping of children. -/
inductive Sound : Rule → Prop
  | node {f : Facets} {items : Option Rule} {children : Option (Fields Rule)}
    (given : some .null ∉ f.singles)
    (pattern : ∀ v, f.pattern = some v → v.isText = true)
    (mapped : f.type = .object → children.isSome)
    (element : ∀ r, items = some r → Sound r)
    (kids : ∀ e ∈ children.getD [], Sound e.2) : Sound ⟨f, items, children⟩

/-! ## Records -/

/-- The wire names in the order of a record, each with what is written under it, if anything. -/
def columns (f : Facets) (items children : Option Value) : Fields (Option Value) :=
  [("type", some (.str f.type.text)), ("required", f.required), ("minLength", f.minLength),
    ("maxLength", f.maxLength), ("pattern", f.pattern), ("enum", f.enum.map .list), ("min", f.min),
    ("max", f.max), ("items", items), ("minItems", f.minItems), ("maxItems", f.maxItems),
    ("children", children), ("default", f.default.bind Value.present?)]

def record (f : Facets) (items children : Option Value) : Fields Value :=
  (columns f items children).flatMap fun c => entry c.1 c.2

theorem toValue_eq (f : Facets) (items : Option Rule) (children : Option (Fields Rule)) :
    toValue ⟨f, items, children⟩ =
      .object (record f (itemsValue items) (childrenValue children)) := by
  simp [toValue, record, columns, leadingEntries, countEntries, entry]

variable {f : Facets} {items children : Option Value}

theorem get?_entry_append (name : String) (v : Option Value) (rest : Fields Value) (key : String) :
    Fields.get? (entry name v ++ rest) key =
      if name = key then v.or (Fields.get? rest key) else Fields.get? rest key := by
  cases v with
  | none => simp [entry]
  | some v => exact Fields.get?_cons name v rest key

/-- Under a name of its own stands what is written there. -/
theorem get?_flatMap_entry {cs : Fields (Option Value)} (own : cs.keys.Nodup) (name : String) :
    Fields.get? (cs.flatMap fun c => entry c.1 c.2) name = (cs.get? name).join := by
  induction cs with
  | nil => rfl
  | cons c rest ih =>
    obtain ⟨key, v⟩ := c
    obtain ⟨alone, later⟩ := List.nodup_cons.1 own
    rw [List.flatMap_cons, get?_entry_append, ih later, Fields.get?_cons]
    split
    next here =>
      rw [Fields.get?_of_notMem rest (here ▸ alone)]
      exact Option.or_none
    next => rfl

theorem get?_record (name : String) :
    (record f items children).get? name = ((columns f items children).get? name).join :=
  get?_flatMap_entry (by simp [columns, Fields.keys]) name

theorem bind_present? (v : Option Value) : v.bind Value.present? = forgetNull v := by
  cases v with
  | none => rfl
  | some v => cases v <;> rfl

/-- A facet that is not null is read as it stands, under whichever of its names. -/
theorem facet?_of_get? {fs : Fields Value} {name other : String} {v : Option Value}
    (found : fs.get? name = v) (alone : v = none → fs.get? other = none) (given : v ≠ some .null) :
    facet? fs name other = v := by
  unfold facet?
  rw [found]
  cases v with
  | none => rw [alone rfl]; rfl
  | some x => cases x <;> first | rfl | exact absurd rfl given

theorem patternOf_text {v : Value} (text : v.isText = true) : patternOf v = .ok (some v) := by
  unfold patternOf
  split
  · cases text
  · cases text
  · exact if_pos text

/-- Entries in which each wire name says what it should are read as the facets. -/
theorem facetsOf_record (given : some .null ∉ f.singles)
    (pattern : ∀ v, f.pattern = some v → v.isText = true) :
    facetsOf (record f items children) = .ok { f with default := forgetNull f.default } := by
  have read {name other : String} {v : Option Value} (single : v ∈ f.singles)
      (found : (record f items children).get? name = v)
      (alone : v = none → (record f items children).get? other = none) :
      facet? (record f items children) name other = v :=
    facet?_of_get? found alone fun null => given (null ▸ single)
  have choices : facet? (record f items children) "enum" "enum" = f.enum.map .list :=
    facet?_of_get? (by simp [get?_record, columns]) (by simp [get?_record, columns]) (by simp)
  have type : (record f items children).get? "type" = some (.str f.type.text) := by
    simp [get?_record, columns]
  have default : (record f items children).get? "default" = forgetNull f.default := by
    simp [get?_record, columns, bind_present?]
  have typed : typeOf (.str f.type.text) = .ok f.type := by
    simp [typeOf, PrimitiveType.ofText?_text]
  unfold facetsOf
  rw [choices, type, default, @read "required" "required" f.required,
    @read "minLength" "min_length" f.minLength, @read "maxLength" "max_length" f.maxLength,
    @read "pattern" "pattern" f.pattern, @read "min" "min" f.min, @read "max" "max" f.max,
    @read "minItems" "min_items" f.minItems, @read "maxItems" "max_items" f.maxItems]
  · simp only [typed, bind, Except.bind, pure, Except.pure]
    cases enum : f.enum <;> cases text : f.pattern <;>
      simp [patternOf_text, Value.items?, pattern, text]
  all_goals simp [Facets.singles, get?_record, columns]

/-! ## Reading back -/

theorem ofFields_fieldValues {cs : Fields Rule}
    (each : ∀ e ∈ cs, ofValue e.2.toValue = .ok e.2.forgetNullDefaults) :
    ofFields (fieldValues cs) = .ok (forgetFields cs) := by
  induction cs with
  | nil => rfl
  | cons e rest ih =>
    obtain ⟨name, r⟩ := e
    obtain ⟨first, others⟩ := List.forall_mem_cons.1 each
    have first : ofValue r.toValue = .ok r.forgetNullDefaults := first
    rw [fieldValues, ofFields, first, ih others]
    rfl

theorem isSome_forgetChildren (children : Option (Fields Rule)) :
    (forgetChildren children).isSome = children.isSome := by
  cases children <;> rfl

/-- The step: what is read from the record of a node whose element and children are read back. -/
theorem ofValue_toValue_node {f : Facets} {items : Option Rule} {children : Option (Fields Rule)}
    (given : some .null ∉ f.singles) (pattern : ∀ v, f.pattern = some v → v.isText = true)
    (mapped : f.type = .object → children.isSome)
    (element : ∀ r, items = some r → ofValue r.toValue = .ok r.forgetNullDefaults)
    (kids : ∀ e ∈ children.getD [], ofValue e.2.toValue = .ok e.2.forgetNullDefaults) :
    ofValue (toValue ⟨f, items, children⟩) = .ok (forgetNullDefaults ⟨f, items, children⟩) := by
  have inItems : itemsIn (record f (itemsValue items) (childrenValue children)) =
      .ok (forgetItems items) := by
    rw [itemsIn_eq, get?_record]
    cases items with
    | none => rfl
    | some r =>
      have read := element r rfl
      obtain ⟨g, inner, cs⟩ := r
      rw [toValue_eq] at read
      simp [columns, itemsValue, forgetItems, toValue_eq, read]
  have inChildren : childrenIn (record f (itemsValue items) (childrenValue children)) =
      .ok (forgetChildren children) := by
    rw [childrenIn_eq, get?_record]
    cases children with
    | none => rfl
    | some cs =>
      have read : ofFields (fieldValues cs) = .ok (forgetFields cs) := ofFields_fieldValues kids
      simp [columns, childrenValue, forgetChildren, read]
  have settles : settled ⟨{ f with default := forgetNull f.default }, forgetItems items,
      forgetChildren children⟩ = ⟨{ f with default := forgetNull f.default }, forgetItems items,
      forgetChildren children⟩ := by
    refine if_neg ?_
    rintro ⟨isObject, missing⟩
    have there := mapped isObject
    rw [← isSome_forgetChildren] at there
    simp_all
  rw [toValue_eq, ofValue, inItems, inChildren, facetsOf_record given pattern, forgetNullDefaults]
  exact congrArg Except.ok settles

theorem read_toValue {r : Rule} (sound : r.Sound) :
    ofValue r.toValue = .ok r.forgetNullDefaults := by
  induction sound with
  | node given pattern mapped _ _ element kids =>
    exact ofValue_toValue_node given pattern mapped element kids

/-! ## What is lost -/

theorem forgetNull_eq_self_iff (v : Option Value) :
    forgetNull v = v ↔ v.any Value.isNull = false := by
  cases v with
  | none => simp [forgetNull]
  | some v => cases v <;> simp [forgetNull, Value.isNull]

theorem forgetFields_eq_self_iff {cs : Fields Rule}
    (each : ∀ e ∈ cs, e.2.forgetNullDefaults = e.2 ↔ e.2.hasNullDefault = false) :
    forgetFields cs = cs ↔ fieldsHaveNullDefault cs = false := by
  induction cs with
  | nil => exact iff_of_true rfl rfl
  | cons e rest ih =>
    obtain ⟨name, r⟩ := e
    obtain ⟨first, others⟩ := List.forall_mem_cons.1 each
    simp [forgetFields, fieldsHaveNullDefault, ih others, first]

theorem forgetNullDefaults_eq_self_iff (r : Rule) :
    r.forgetNullDefaults = r ↔ r.hasNullDefault = false := by
  induction r using Rule.induct with
  | node f items children element kids =>
    have facets : ({ f with default := forgetNull f.default } : Facets) = f ↔
        f.default.any Value.isNull = false := by
      rw [← forgetNull_eq_self_iff]
      exact ⟨fun same => congrArg Facets.default same, fun same => by rw [same]⟩
    have below : forgetItems items = items ↔ itemsHaveNullDefault items = false := by
      cases items with
      | none => exact iff_of_true rfl rfl
      | some r => simp [forgetItems, itemsHaveNullDefault, element r rfl]
    have beside :
        forgetChildren children = children ↔ childrenHaveNullDefault children = false := by
      cases children with
      | none => exact iff_of_true rfl rfl
      | some cs =>
        have same := forgetFields_eq_self_iff kids
        simpa [forgetChildren, childrenHaveNullDefault] using same
    simp only [forgetNullDefaults, hasNullDefault, mk.injEq, facets, below, beside,
      Bool.or_eq_false_iff, and_assoc]

/-- **A rule that is read from its own record** is the rule without its null defaults, so it is the
same rule exactly if no node of it, element or child at any depth, has the default null. -/
theorem ofValue_toValue {r : Rule} (sound : r.Sound) :
    ofValue r.toValue = .ok r.forgetNullDefaults ∧
      (ofValue r.toValue = .ok r ↔ r.hasNullDefault = false) := by
  have read := read_toValue sound
  refine ⟨read, ?_⟩
  rw [read, Except.ok.injEq]
  exact forgetNullDefaults_eq_self_iff r

def label : Rule :=
  ⟨{ type := .string
     pattern := some (.str "^a")
     enum := some [.str "a", .null]
     default := some .null }, none, none⟩

def labels : Rule := ⟨{ type := .array, minItems := some (.int 1) }, some label, none⟩

def rank : Rule :=
  ⟨{ type := .number, min := some (.int 0), default := some (.int 0) }, none, none⟩

/-- A document with a list of texts, null by default, and a number with a default. -/
def article : Rule :=
  ⟨{ type := .object, required := some (.bool true) }, none, some
    [("labels", labels), ("rank", rank)]⟩

theorem sound_article : article.Sound := by
  have text : label.Sound := by
    refine .node (by simp [Facets.singles]) ?_ nofun nofun nofun
    rintro _ ⟨⟩
    rfl
  have list : labels.Sound := by
    refine .node (by simp [Facets.singles]) nofun nofun ?_ nofun
    rintro _ ⟨⟩
    exact text
  have number : rank.Sound := .node (by simp [Facets.singles]) nofun nofun nofun nofun
  refine .node (by simp [Facets.singles]) nofun (fun _ => rfl) nofun ?_
  exact List.forall_mem_cons.2 ⟨list, List.forall_mem_singleton.2 number⟩

/-- The null default of the elements is lost, and the number keeps its own. -/
theorem ofValue_toValue_article :
    article.Sound ∧ ofValue article.toValue = .ok article.forgetNullDefaults ∧
      ofValue article.toValue ≠ .ok article := by
  obtain ⟨read, same⟩ := ofValue_toValue sound_article
  refine ⟨sound_article, read, fun unchanged => ?_⟩
  have declares : article.hasNullDefault = true := rfl
  exact absurd (same.1 unchanged) (by simp [declares])

end Rule

end ShapeContract
