import ShapeContract.Overrides.Apply
import ShapeContract.Proofs.Value.Data
import ShapeContract.Proofs.Wire.Documents

/-!
# What validators are made from

A validator is made from a rule tree or from overrides alone. Either way its document is that of an
object with some fields: `Origin.exists_fields` names them, and says that the document has a
validator for every handling of payloads once it has one.
-/

set_option autoImplicit false

namespace ShapeContract.Wire

open Schema (ofDocument)

/-! ## Findings -/

namespace Metaschema

/-- What is wrong with an object is what is wrong with its required names and its properties. -/
theorem findings_objectDocument [CharacterNames] (a : Bool) (properties : Value)
    (required : List Value)
    (default : Option Value) :
    findings (objectDocument a properties required default) =
      (names (.list required)).map (Finding.under "required") ++
        (members properties).map (Finding.under "properties") := by
  have type : typeOperand (.str "object") = [] := rfl
  have flag : typed [.object, .boolean] (.bool a) = [] := rfl
  have none : names (.list []) = [] := rfl
  cases required <;> cases default <;>
    simp [findings, objectDocument, requiredEntry, Rule.entry, keyword, itemsIn, additionalIn,
      propertiesIn, type, flag, none]

/-- An object document is clean when its required names and its properties are. -/
theorem clean_objectDocument_iff [CharacterNames] {a : Bool} {properties : Value}
    {required : List Value}
    {default : Option Value} :
    findings (objectDocument a properties required default) = [] ↔
      names (.list required) = [] ∧ members properties = [] := by
  rw [findings_objectDocument, List.append_eq_nil_iff, List.map_eq_nil_iff, List.map_eq_nil_iff]

/-- Nothing is wrong with the schema of the items exactly if it is no schema with findings: no
object is a list of schemas. -/
theorem either_object_eq_nil_iff [CharacterNames] (fs : Fields Value) :
    either (.object fs) (findings (.object fs)) (schemaList (.object fs)) = [] ↔
      findings (.object fs) = [] := by
  have list : schemaList (.object fs) = [.about (.object fs) (typeMessage (.object fs) [.array])] := rfl
  unfold either
  cases aborted : (findings (.object fs)).find? Finding.aborts with
  | some f =>
    constructor
    · intro clean
      cases clean
    · intro clean
      rw [clean] at aborted
      cases aborted
  | none =>
    simp only [List.isEmpty_iff]
    split
    next clean => simp [clean]
    next unclean =>
      rw [list, Finding.about]
      cases (Value.object fs).writable <;> simp [Finding.aborts, unclean]

/-- What is wrong with an object beside the schema of its items. -/
def findingsBesideItems [CharacterNames] (fs : Fields Value) : List Finding :=
  keyword fs "maximum" (typed [.number]) ++ keyword fs "minimum" (typed [.number]) ++
    keyword fs "maxLength" count ++ keyword fs "minLength" count ++ keyword fs "pattern" regex ++
    keyword fs "maxItems" count ++ keyword fs "minItems" count ++ keyword fs "required" names ++
    additionalIn fs ++ propertiesIn fs ++ keyword fs "enum" (typed [.array]) ++
    keyword fs "type" typeOperand ++ keyword fs "format" (typed [.string])

theorem clean_object_iff [CharacterNames] (fs : Fields Value) :
    findings (.object fs) = [] ↔ itemsIn fs = [] ∧ findingsBesideItems fs = [] := by
  simp only [findings, findingsBesideItems, List.append_eq_nil_iff, and_assoc, and_left_comm]

/-- What is found beside `items` does not depend on it. -/
theorem findingsBesideItems_items [CharacterNames] (type items : Value) (rest : Fields Value) :
    findingsBesideItems (("type", type) :: ("items", items) :: rest) =
      findingsBesideItems (("type", type) :: rest) := by
  simp [findingsBesideItems, keyword, additionalIn, propertiesIn]

/-- Whether an array is clean depends on the schema of its items only through whether that is. -/
theorem clean_arrayDocument_iff [CharacterNames] (f : Facets) (fs : Fields Value) :
    findings (arrayDocument f (.object fs)) = [] ↔
      findings (.object fs) = [] ∧ findings (arrayDocument f (.object [])) = [] := by
  have items : ∀ gs rest, itemsIn (("type", .str "array") :: ("items", .object gs) :: rest) = [] ↔
      findings (.object gs) = [] := by
    intro gs rest
    simp [itemsIn, either_object_eq_nil_iff]
  have empty : findings (.object []) = [] := rfl
  unfold arrayDocument arrayKeywords
  rw [clean_object_iff, clean_object_iff (_ ++ _)]
  simp only [List.cons_append, List.nil_append, items, findingsBesideItems_items, empty, true_and]

/-- Properties are clean when each schema is … -/
theorem clean_members_iff [CharacterNames] {ps : Fields Value} :
    members (.object ps) = [] ↔ ∀ e ∈ ps, findings e.2 = [] := by
  rw [members]
  induction ps with
  | nil => simp [ofFields]
  | cons e rest ih =>
    obtain ⟨name, d⟩ := e
    simp [ofFields, ih]

/-- … also under keys that are not all texts. -/
theorem clean_pairs_iff [CharacterNames] {ks ds : List Value} :
    members (.mapping ks ds) = [] ↔ ∀ e ∈ ks.zip ds, findings e.2 = [] := by
  rw [members]
  induction ks generalizing ds with
  | nil => simp [ofPairs]
  | cons k ks ih =>
    cases ds with
    | nil => simp [ofPairs]
    | cons d ds => simp [ofPairs, ih]

/-- Whether the document of a rule is clean does not depend on what is done with unknown members. -/
theorem clean_ofRule [CharacterNames] (a b : Bool) {r : Rule} (clean : findings (ofRule a r) = []) :
    findings (ofRule b r) = [] := by
  induction r using Rule.inductByType with
  | object f items children isObject kids =>
    rw [ofRule_of_object _ isObject, clean_objectDocument_iff] at clean ⊢
    refine ⟨clean.1, clean_members_iff.2 ?_⟩
    have before := clean_members_iff.1 clean.2
    rw [ofChildren_eq] at before ⊢
    intro e inside
    obtain ⟨⟨name, c⟩, among, rfl⟩ := List.mem_map.1 inside
    exact kids _ among (before _ (List.mem_map_of_mem among))
  | array f items children isArray element =>
    obtain ⟨fs, before⟩ := ofItems_object a items
    obtain ⟨gs, after⟩ := ofItems_object b items
    rw [ofRule_of_array _ isArray, before, clean_arrayDocument_iff] at clean
    rw [ofRule_of_array _ isArray, after, clean_arrayDocument_iff]
    refine ⟨?_, clean.2⟩
    cases items with
    | none => cases after; rfl
    | some r =>
      rw [← after]
      refine element r rfl ?_
      rw [← before] at clean
      exact clean.1
  | flat r notObject notArray => rwa [ofRule_of_flat b a notObject notArray]

/-- Nothing repeats when no two entries are the same to the metaschema. -/
theorem repeats_eq_false_iff {vs : List Value} :
    repeats vs = false ↔ vs.Pairwise fun v w => same v w = false := by
  induction vs with
  | nil => simp [repeats]
  | cons v rest ih => simp [repeats, ih]

theorem typed_string_eq_nil_iff {v : Value} : typed [.string] v = [] ↔ v.text?.isSome = true := by
  simp [typed, admits_string, Value.isText, Option.isSome_iff_ne_none]

/-- A clean list of names: texts, no two of them the same. -/
theorem clean_names_iff {vs : List Value} :
    names (.list vs) = [] ↔ (∀ v ∈ vs, v.text?.isSome = true) ∧
      vs.Pairwise fun v w => same v w = false := by
  have texts : (vs.zipIdx.flatMap fun e => (typed [.string] e.1).map
      (Finding.under (Decimal.text e.2))) = [] ↔ ∀ v ∈ vs, v.text?.isSome = true := by
    simp only [List.flatMap_eq_nil_iff, List.map_eq_nil_iff, typed_string_eq_nil_iff]
    exact forall_zipIdx_iff (fun v => v.text?.isSome = true) vs
  rw [names, List.append_eq_nil_iff, texts, ← repeats_eq_false_iff]
  cases repeats vs <;> simp

/-- A clean list of names is a list of texts. -/
theorem exists_texts_of_names {required : List Value} (clean : names (.list required) = []) :
    ∃ texts, required.mapM Value.text? = some texts := by
  have each := (clean_names_iff.1 clean).1
  clear clean
  induction required with
  | nil => exact ⟨[], rfl⟩
  | cons v rest ih =>
    obtain ⟨here, later⟩ := List.forall_mem_cons.1 each
    obtain ⟨name, text⟩ := Option.isSome_iff_exists.1 here
    obtain ⟨others, texts⟩ := ih later
    exact ⟨name :: others, by simp [text, texts]⟩

end Metaschema

/-- A document compiles when nothing is found in it, and the validator is read off it. -/
theorem compile_ok_iff [CharacterNames] {h : Handling} {document : Value} {c : Validator} :
    (compile h document).outcome = .ok c ↔
      Metaschema.findings document = [] ∧ c = ⟨ofDocument document, h⟩ := by
  constructor
  · intro compiled
    refine ⟨?_, eq_of_compile compiled⟩
    unfold compile at compiled
    split at compiled
    next clean => exact clean
    next => cases compiled
    next => cases compiled
  · rintro ⟨clean, rfl⟩
    exact compile_of_clean h (List.isEmpty_iff.2 clean)

/-! ## Property names without a schema -/

/-- Joining values that equal none before them: what is joined, and that no two equal another. -/
theorem foldl_distinct {known : List Value} (vs : List Value)
    (own : known.Pairwise fun v w => w.equal v = false) :
    ∃ fresh, vs.foldl (fun acc v => if v.among acc then acc else acc ++ [v]) known =
      known ++ fresh ∧ (known ++ fresh).Pairwise fun v w => w.equal v = false := by
  induction vs generalizing known with
  | nil => exact ⟨[], by simp, by simpa using own⟩
  | cons v rest ih =>
    rw [List.foldl_cons]
    split
    next => exact ih own
    next new =>
      have next : (known ++ [v]).Pairwise fun v w => w.equal v = false := by
        refine List.pairwise_append.2 ⟨own, List.pairwise_singleton _ _, ?_⟩
        intro w inside u same
        rw [List.mem_singleton.1 same]
        simp only [Value.among, List.any_eq_true, not_exists, not_and, Bool.not_eq_true] at new
        exact new w inside
      obtain ⟨fresh, joined, apart⟩ := ih next
      exact ⟨v :: fresh, by simpa using joined, by simpa using apart⟩

theorem nodup_texts {vs : List Value} (apart : vs.Pairwise fun v w => w.equal v = false) :
    (vs.filterMap Value.text?).Nodup := by
  induction apart with
  | nil => exact List.nodup_nil
  | @cons v vs first _ ih =>
    cases text : v.text? with
    | none => rwa [List.filterMap_cons_none text]
    | some s =>
      rw [List.filterMap_cons_some text]
      refine List.nodup_cons.2 ⟨?_, ih⟩
      intro later
      obtain ⟨w, inside, same⟩ := List.mem_filterMap.1 later
      have equal := Value.equal_text same v
      rw [first w inside, text, decide_eq_true rfl] at equal
      cases equal

/-- The property names are the appended ones and, after them, new ones. -/
theorem openNames_eq {known : List String} (own : known.Nodup) (included : List Value) :
    ∃ fresh, openNames known included = known.map .str ++ fresh ∧
      (known ++ fresh.filterMap Value.text?).Nodup := by
  have first := foldl_texts [] known
  rw [freshNames_of_nodup own (fun _ _ => List.not_mem_nil), List.nil_append] at first
  have apart : (known.map Value.str).Pairwise fun v w => w.equal v = false := by
    rw [List.pairwise_map]
    refine own.imp fun {s t} ne => ?_
    rw [Value.equal_str, decide_eq_false_iff_not]
    exact Ne.symm ne
  obtain ⟨fresh, joined, distinct⟩ := foldl_distinct included apart
  refine ⟨fresh, ?_, ?_⟩
  · rw [openNames, Value.distinct, List.foldl_append]
    change List.foldl _ (List.foldl _ (([] : List String).map Value.str) _) _ = _
    rw [first]
    exact joined
  · have texts := nodup_texts distinct
    rwa [List.filterMap_append, List.filterMap_map, show Value.text? ∘ Value.str = some from rfl,
      List.filterMap_some] at texts

/-! ## The document without a schema -/

/-- The properties without a schema: those of appended rules, then a text for each new name. -/
def openMap (a : Bool) (rules : Fields Rule) (included : List Value) : Value :=
  let names := openNames (rules.map Prod.fst) included
  Entries.toValue (names.zip ((rules.map fun e => (e.1, ofRule a e.2)).map Prod.snd ++
    (names.drop rules.length).map fun _ => textDocument))

/-- What overrides must be to make a document, and which it is. -/
theorem ofOverrides_ok_iff {a : Bool} {o : Overrides} {d : Value} :
    ofOverrides a o = .ok d ↔ ∃ rules, openRules o.appended = .ok rules ∧
      Overrides.checkPaths o.included = .ok () ∧
      ((requiredNames rules ++ o.required).isEmpty = false →
        Overrides.checkPaths o.optional = .ok ()) ∧
      o.required.all Value.seekable = true ∧
      objectDocument a (openMap a rules o.included) (openRequired o rules) none = d := by
  unfold ofOverrides
  cases read : openRules o.appended with
  | error e => simp [bind, Except.bind]
  | ok rules =>
    simp only [bind, Except.bind, pure, Except.pure, Except.ok.injEq, exists_eq_left']
    cases included : Overrides.checkPaths o.included with
    | error e => simp
    | ok _ =>
      cases optional : Overrides.checkPaths o.optional <;>
        cases some' : (requiredNames rules ++ o.required).isEmpty <;>
          cases seekable : o.required.all Value.seekable <;>
            simp [objectDocument, Rule.entry, openMap, textDocument]

/-- Entries under text keys are the fields of an object. -/
theorem map_snd_zip_texts {es : Entries} {names : List String}
    (texts : es.mapM (fun e => e.1.text?) = some names) :
    (names.zip (es.map Prod.snd)).map Prod.snd = es.map Prod.snd ∧
      names.zip (es.map Prod.snd) =
        es.filterMap fun e => e.1.text?.map fun name => (name, e.2) := by
  induction es generalizing names with
  | nil => cases texts; exact ⟨rfl, rfl⟩
  | cons e rest ih =>
    obtain ⟨k, d⟩ := e
    rw [List.mapM_cons] at texts
    cases text : k.text? with
    | none => simp [text] at texts
    | some name =>
      cases later : rest.mapM (fun e => e.1.text?) with
      | none => simp [text, later] at texts
      | some others =>
        simp only [text, later, Option.bind_eq_bind, Option.bind_some, Option.pure_def,
          Option.some.injEq] at texts
        obtain ⟨documents, pairs⟩ := ih later
        subst texts
        exact ⟨by simp [documents], by simp [text, pairs]⟩

/-- Properties as a mapping are those under texts. -/
theorem propertiesOf_toValue [CharacterNames] (es : Entries) :
    Schema.propertiesOf es.toValue =
      es.filterMap fun e => e.1.text?.map fun name => (name, ofDocument e.2) := by
  unfold Entries.toValue
  cases texts : es.mapM fun e => e.1.text? with
  | some names =>
    rw [Schema.propertiesOf, membersOf_eq, (map_snd_zip_texts texts).2, Fields.mapValues,
      List.map_filterMap]
    refine List.filterMap_congr fun e _ => ?_
    cases e.1.text? <;> rfl
  | none =>
    clear texts
    rw [Schema.propertiesOf]
    induction es with
    | nil => rfl
    | cons e rest ih =>
      obtain ⟨k, d⟩ := e
      rw [List.map_cons, List.map_cons, Schema.pairedOf, ih]
      cases text : k.text? <;> simp [text]

/-- A mapping of schemas is clean when each is, whatever its keys. -/
theorem Metaschema.clean_toValue_iff [CharacterNames] (es : Entries) :
    members es.toValue = [] ↔ ∀ e ∈ es, findings e.2 = [] := by
  have each : (∀ e ∈ es, findings e.2 = []) ↔ ∀ d ∈ es.map Prod.snd, findings d = [] := by
    rw [List.forall_mem_map]
  rw [each]
  unfold Entries.toValue
  cases texts : es.mapM fun e => e.1.text? with
  | some names =>
    have documents := (map_snd_zip_texts texts).1
    rw [clean_members_iff, ← documents, List.forall_mem_map, documents]
  | none =>
    have pairs : (es.map Prod.fst).zip (es.map Prod.snd) = es := by
      rw [List.zip_map', List.map_id'']
      exact fun _ => rfl
    rw [clean_pairs_iff, pairs, ← each]

/-- A field for each name, which takes a text. -/
def textFields (names : List String) : Fields Rule := names.map fun name => (name, Rule.bare .string)

/-- Without a schema the properties are those of an object with the appended rules and a text for
each new name as its fields. -/
theorem exists_textFields [CharacterNames] {rules : Fields Rule} (own : rules.keys.Nodup)
    (included : List Value) :
    ∃ names, (rules.keys ++ names).Nodup ∧ ∀ a,
      Schema.propertiesOf (openMap a rules included) =
          Fields.mapValues (schemaOf a) (rules ++ textFields names) ∧
        (Metaschema.members (openMap a rules included) = [] ↔
          ∀ e ∈ rules, Metaschema.findings (ofRule a e.2) = []) := by
  obtain ⟨fresh, names, apart⟩ := openNames_eq own included
  refine ⟨fresh.filterMap Value.text?, apart, fun a => ?_⟩
  have rest : (rules.keys.map Value.str ++ fresh).drop rules.length = fresh := by
    have length : rules.length = (rules.keys.map Value.str).length := by simp [Fields.keys]
    rw [length, List.drop_left]
  have entries : (openNames (rules.map Prod.fst) included).zip
      ((rules.map fun e => (e.1, ofRule a e.2)).map Prod.snd ++
        ((openNames (rules.map Prod.fst) included).drop rules.length).map fun _ => textDocument) =
      (rules.map fun e => (Value.str e.1, ofRule a e.2)) ++ fresh.map fun v => (v, textDocument) := by
    change (openNames rules.keys included).zip (_ ++ ((openNames rules.keys included).drop _).map _) = _
    have own : (rules.keys.map Value.str).zip (rules.map fun e => ofRule a e.2) =
        rules.map fun e => (Value.str e.1, ofRule a e.2) := by
      rw [Fields.keys, List.map_map, List.zip_map']
      rfl
    have added : fresh.zip (fresh.map fun _ => textDocument) =
        fresh.map fun v => (v, textDocument) := by
      have pairs := List.zip_map' (f := id) (g := fun _ => textDocument) (l := fresh)
      rwa [List.map_id] at pairs
    rw [names, rest, List.zip_append (by simp [Fields.keys]), List.map_map]
    exact congrArg₂ (· ++ ·) own added
  rw [openMap, entries]
  constructor
  · have own : (rules.map fun e => (Value.str e.1, ofRule a e.2)).filterMap
        (fun e => e.1.text?.map fun name => (name, ofDocument e.2)) =
        Fields.mapValues (schemaOf a) rules := by
      rw [List.filterMap_map, Fields.mapValues, ← List.filterMap_eq_map]
      rfl
    have added : (fresh.map fun v => (v, textDocument)).filterMap
        (fun e => e.1.text?.map fun name => (name, ofDocument e.2)) =
        Fields.mapValues (schemaOf a) (textFields (fresh.filterMap Value.text?)) := by
      rw [List.filterMap_map, Fields.mapValues, textFields, List.map_map, List.map_filterMap]
      rfl
    rw [propertiesOf_toValue, List.filterMap_append, Fields.mapValues_append, own, added]
  · rw [Metaschema.clean_toValue_iff, List.forall_mem_append, List.forall_mem_map,
      List.forall_mem_map]
    exact and_iff_left fun _ _ => rfl

theorem wellKeyed_openRule {v : Value} {r : Rule} (keyed : v.WellKeyed) (read : openRule v = .ok r) :
    r.WellKeyed := by
  unfold openRule at read
  split at read
  next => exact Rule.wellKeyed_ofValue keyed read
  next fs =>
    have text : (Value.object [("type", .str "string")]).WellKeyed := by
      simp [Value.WellKeyed, Value.FieldsWellKeyed, Fields.keys]
    exact Rule.wellKeyed_ofValue
      (Value.wellKeyed_putAll text (Value.wellKeyed_object_iff.1 keyed).2) read
  next => cases read

/-- The rules of appended definitions are well keyed when the definitions are. -/
theorem wellKeyed_openRules {fs : Fields Value} {rules : Fields Rule}
    (keyed : ∀ e ∈ fs, e.2.WellKeyed) (read : openRules fs = .ok rules) :
    ∀ e ∈ rules, e.2.WellKeyed := by
  induction fs generalizing rules with
  | nil =>
    cases read
    exact fun _ inside => nomatch inside
  | cons e rest ih =>
    obtain ⟨name, v⟩ := e
    rw [openRules, Rule.bind_ok_iff] at read
    obtain ⟨r, here, read⟩ := read
    obtain ⟨rs, later, same⟩ := Rule.bind_ok_iff.1 read
    cases same
    obtain ⟨first, others⟩ := List.forall_mem_cons.1 keyed
    exact List.forall_mem_cons.2 ⟨wellKeyed_openRule first here, ih others later⟩

/-! ## Trees and overrides -/

/-- What a validator is made from: a rule tree, or overrides alone. -/
inductive Origin where
  | tree (t : Rule)
  | overrides (o : Overrides)

namespace Origin

def document (allowUnknown : Bool) : Origin → Except Failure Value
  | .tree t => .ok (ofTree allowUnknown t)
  | .overrides o => ofOverrides allowUnknown o

def validator [CharacterNames] (s : Origin) (h : Handling) : Except Failure Validator := do
  let document ← s.document h.allowUnknown
  (compile h document).outcome

/-- Every key once: in the tree and its defaults, or in the appended definitions. -/
def WellKeyed : Origin → Prop
  | .tree t => t.WellKeyed
  | .overrides o => (Value.object o.appended).WellKeyed

/-- What overrides make of a schema: its tree adapted, or themselves if there is none. -/
def adapted (base : Option Rule) (o : Overrides) : Except Failure Origin :=
  match base with
  | some t => (o.apply t).map .tree
  | none => .ok (.overrides o)

/-- An origin has a validator when its document is clean. -/
theorem validator_ok_iff [CharacterNames] {s : Origin} {h : Handling} {c : Validator} :
    s.validator h = .ok c ↔ ∃ d, s.document h.allowUnknown = .ok d ∧
      Metaschema.findings d = [] ∧ c = ⟨ofDocument d, h⟩ := by
  unfold validator
  simp only [Rule.bind_ok_iff, compile_ok_iff]

/-- An object with some fields, which may have keys of its own as required names. -/
def objectOf [CharacterNames] (fields : Fields Rule) (required : List String) (h : Handling) :
    Validator :=
  ⟨.object h.allowUnknown (fields.mapValues (schemaOf h.allowUnknown)) required none, h⟩

theorem wellKeyed_kids {t : Rule} (keyed : t.WellKeyed) :
    t.kids.keys.Nodup ∧ ∀ e ∈ t.kids, e.2.WellKeyed := by
  obtain ⟨f, items, children⟩ := t
  exact Rule.childrenWellKeyed_iff.1 keyed.2.2

/-- **What has a validator has one for every handling of payloads**: that of an object with some
fields and some required names, whatever is done with unknown members. -/
theorem exists_fields [CharacterNames] {s : Origin} (keyed : s.WellKeyed) {h : Handling}
    {c : Validator}
    (built : s.validator h = .ok c) :
    ∃ fields required, fields.keys.Nodup ∧ (∀ e ∈ fields, e.2.WellKeyed) ∧
      ∀ h', s.validator h' = .ok (objectOf fields required h') := by
  obtain ⟨d, made, clean, -⟩ := validator_ok_iff.1 built
  cases s with
  | tree t =>
    cases made
    obtain ⟨own, each⟩ := wellKeyed_kids keyed
    refine ⟨t.kids, ownRequired t.kids, own, each, fun h' => ?_⟩
    refine validator_ok_iff.2 ⟨_, rfl, Metaschema.clean_ofRule _ _ clean, ?_⟩
    rw [ofTree_eq_objectDocument, ofDocument_objectDocument _ _ (text?_requiredNames_eq _),
      ofFields_eq, propertiesOf_mapValues]
    rfl
  | overrides o =>
    obtain ⟨own, each⟩ := Value.wellKeyed_object_iff.1 keyed
    obtain ⟨rules, read, included, optional, required, rfl⟩ := ofOverrides_ok_iff.1 made
    obtain ⟨names, apart, properties⟩ :=
      exists_textFields (keys_openRules read ▸ own) o.included
    obtain ⟨namesClean, propertiesClean⟩ := Metaschema.clean_objectDocument_iff.1 clean
    obtain ⟨texts, listed⟩ := Metaschema.exists_texts_of_names namesClean
    refine ⟨rules ++ textFields names, texts, ?_, ?_, fun h' => ?_⟩
    · have keys : (rules ++ textFields names).keys = rules.keys ++ names := by
        rw [Fields.keys, List.map_append, textFields, List.map_map]
        exact congrArg _ (List.map_id names)
      rwa [keys]
    · refine List.forall_mem_append.2 ⟨wellKeyed_openRules each read, ?_⟩
      refine List.forall_mem_map.2 fun name _ => ?_
      exact ⟨fun _ none => (nomatch none), trivial, trivial⟩
    · have rulesClean := (properties _).2.1 propertiesClean
      refine validator_ok_iff.2 ⟨_, ofOverrides_ok_iff.2
        ⟨rules, read, included, optional, required, rfl⟩, ?_, ?_⟩
      · refine Metaschema.clean_objectDocument_iff.2 ⟨namesClean, (properties _).2.2 ?_⟩
        exact fun e inside => Metaschema.clean_ofRule _ _ (rulesClean e inside)
      · rw [ofDocument_objectDocument _ _ listed, (properties _).1]
        rfl

end Origin

end ShapeContract.Wire
