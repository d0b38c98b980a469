import ShapeContract.Proofs.Overrides.Key
import ShapeContract.Proofs.Wire.Objects

/-!
# Documents made from overrides alone

Without a schema the properties are the appended ones, and after them a text for each included path
that is new. Plain overrides with path lists in another order make the same document, and the same
validator.
-/

set_option autoImplicit false

namespace ShapeContract.Wire

open Schema (ofDocument membersOf)

/-! ## Names, each once -/

/-- The names that are not known yet, each once. -/
def freshNames (known : List String) : List String → List String
  | [] => []
  | name :: rest =>
    if name ∈ known then freshNames known rest else name :: freshNames (known ++ [name]) rest

/-- The fresh names are those that are not known. -/
theorem mem_freshNames {known names : List String} {name : String} :
    name ∈ freshNames known names ↔ name ∈ names ∧ name ∉ known := by
  induction names generalizing known with
  | nil => simp [freshNames]
  | cons other rest ih =>
    rw [freshNames]
    by_cases old : other ∈ known
    · rw [if_pos old, ih, List.mem_cons]
      constructor
      · rintro ⟨later, new⟩
        exact ⟨Or.inr later, new⟩
      · rintro ⟨rfl | later, new⟩
        · exact absurd old new
        · exact ⟨later, new⟩
    · rw [if_neg old, List.mem_cons, List.mem_cons, ih, List.mem_append, List.mem_singleton]
      by_cases same : name = other
      · simp [same, old]
      · simp [same]

/-- Each fresh name comes once. -/
theorem nodup_freshNames (known names : List String) : (freshNames known names).Nodup := by
  induction names generalizing known with
  | nil => exact List.nodup_nil
  | cons name rest ih =>
    rw [freshNames]
    split
    · exact ih known
    · refine List.nodup_cons.2 ⟨?_, ih _⟩
      intro later
      exact (mem_freshNames.1 later).2 (List.mem_append_right _ List.mem_cons_self)

/-- In another order the fresh names are the same. -/
theorem freshNames_perm {names others : List String} (moved : names.Perm others)
    (known : List String) : (freshNames known names).Perm (freshNames known others) := by
  refine (List.perm_ext_iff_of_nodup (nodup_freshNames _ _) (nodup_freshNames _ _)).2 ?_
  intro name
  rw [mem_freshNames, mem_freshNames, moved.mem_iff]

/-- Names that come once and are not known are all fresh. -/
theorem freshNames_of_nodup {known names : List String} (own : names.Nodup)
    (new : ∀ name ∈ names, name ∉ known) : freshNames known names = names := by
  induction names generalizing known with
  | nil => rfl
  | cons name rest ih =>
    obtain ⟨alone, ownRest⟩ := List.nodup_cons.1 own
    rw [freshNames, if_neg (new name List.mem_cons_self)]
    refine congrArg (name :: ·) (ih ownRest ?_)
    intro other later inside
    rcases List.mem_append.1 inside with old | same
    · exact new other (List.mem_cons_of_mem _ later) old
    · exact alone (List.mem_singleton.1 same ▸ later)

/-- Joining texts, each once, to others. -/
theorem foldl_texts (known names : List String) :
    (names.map Value.str).foldl (fun acc v => if v.among acc then acc else acc ++ [v])
      (known.map .str) = (known ++ freshNames known names).map .str := by
  induction names generalizing known with
  | nil => rw [freshNames, List.append_nil]; rfl
  | cons name rest ih =>
    rw [List.map_cons, List.foldl_cons, Value.among_texts, freshNames]
    by_cases old : name ∈ known
    · rw [if_pos old, if_pos (decide_eq_true old), ih]
    · have next : known.map Value.str ++ [.str name] = (known ++ [name]).map Value.str := by
        rw [List.map_append]
        rfl
      rw [if_neg old, if_neg (by simpa using old), next, ih, List.append_assoc]
      rfl

/-- The known names come first, then the fresh ones. -/
theorem openNames_texts {known : List String} (own : known.Nodup) (names : List String) :
    openNames known (names.map .str) = (known ++ freshNames known names).map .str := by
  have first := foldl_texts [] known
  rw [freshNames_of_nodup own (fun _ _ => List.not_mem_nil), List.nil_append] at first
  rw [openNames, Value.distinct, List.foldl_append]
  change List.foldl _ (List.foldl _ (([] : List String).map Value.str) _) _ = _
  rw [first]
  exact foldl_texts known names

/-! ## The document -/

/-- The rules of appended definitions have their names, in order. -/
theorem keys_openRules {fs : Fields Value} {rules : Fields Rule} (read : openRules fs = .ok rules) :
    rules.keys = fs.keys := by
  induction fs generalizing rules with
  | nil => cases read; rfl
  | cons e rest ih =>
    obtain ⟨name, d⟩ := e
    rw [openRules] at read
    cases first : openRule d with
    | error e => rw [first] at read; cases read
    | ok r =>
      cases later : openRules rest with
      | error e => rw [first, later] at read; cases read
      | ok rs =>
        rw [first, later] at read
        cases read
        exact congrArg (name :: ·) (ih later)

/-- The names of required rules. -/
def ownRequired (rules : Fields Rule) : List String :=
  (rules.filter fun e => e.2.isRequired).map Prod.fst

theorem requiredNames_eq (rules : Fields Rule) :
    requiredNames rules = (ownRequired rules).map .str := by
  induction rules with
  | nil => rfl
  | cons e rest ih =>
    obtain ⟨name, r⟩ := e
    by_cases required : r.isRequired = true <;> simp [requiredNames, ownRequired, ih, required]

/-- The names required without a schema. -/
def openRequiredNames (rules : Fields Rule) (required optional : List String) : List String :=
  (ownRequired rules ++ freshNames (ownRequired rules) required).filter fun name => name ∉ optional

/-- The required names of an open document, as texts. -/
theorem openRequired_texts (o : PlainOverrides) (rules : Fields Rule) :
    openRequired o.overrides rules = (openRequiredNames rules o.required o.optional).map .str := by
  have joined := foldl_texts (ownRequired rules) o.required
  rw [← requiredNames_eq] at joined
  simp only [openRequired, PlainOverrides.overrides, joined, openRequiredNames, List.filter_map,
    Function.comp_def, Value.among_texts, decide_not]

/-- Each name is required once. -/
theorem nodup_openRequiredNames {rules : Fields Rule} (own : rules.keys.Nodup)
    (required optional : List String) : (openRequiredNames rules required optional).Nodup := by
  have ownNames : (ownRequired rules).Nodup := own.sublist (List.filter_sublist.map _)
  refine (List.nodup_append.2 ⟨ownNames, nodup_freshNames _ _, ?_⟩).filter _
  rintro name inside _ later rfl
  exact (mem_freshNames.1 later).2 inside

/-- In another order of the lists the same names are required. -/
theorem openRequiredNames_perm {required required' optional optional' : List String}
    (rules : Fields Rule) (moved : required.Perm required') (movedO : optional.Perm optional') :
    (openRequiredNames rules required optional).Perm
      (openRequiredNames rules required' optional') := by
  simp only [openRequiredNames, movedO.mem_iff]
  exact ((freshNames_perm moved _).append_left _).filter _

def textDocument : Value := .object [("type", .str "string")]

/-- A text for each name. -/
def textProperties (names : List String) : Fields Value := names.map fun name => (name, textDocument)

/-- The properties of a document without a schema. -/
def openProperties (allowUnknown : Bool) (rules : Fields Rule) (included : List String) :
    Fields Value :=
  rules.mapValues (ofRule allowUnknown) ++ textProperties (freshNames rules.keys included)

/-- Names and documents make a mapping with texts as keys. -/
theorem toValue_texts (names : List String) (documents : List Value)
    (both : names.length = documents.length) :
    Entries.toValue ((names.map .str).zip documents) = .object (names.zip documents) := by
  have keys : ((names.map Value.str).zip documents).mapM (fun e => e.1.text?) = some names := by
    have firsts : ((names.map Value.str).zip documents).map Prod.fst = names.map .str :=
      List.map_fst_zip (by rw [List.length_map]; omega)
    have texts := mapM_text?_texts names
    rwa [← firsts, List.mapM_map] at texts
  have values : ((names.map Value.str).zip documents).map Prod.snd = documents :=
    List.map_snd_zip (by rw [List.length_map]; omega)
  rw [Entries.toValue, keys, values]

theorem checkPaths_texts (names : List String) : Overrides.checkPaths (names.map .str) = .ok () := by
  have hashable : (names.map Value.str).all Value.hashable = true := by
    rw [List.all_map]
    exact List.all_eq_true.2 fun _ _ => rfl
  rw [Overrides.checkPaths, if_pos hashable]

theorem seekable_texts (names : List String) : (names.map Value.str).all Value.seekable = true := by
  rw [List.all_map]
  exact List.all_eq_true.2 fun _ _ => rfl

/-- The properties as they are put together, name by name. -/
theorem openProperties_eq (allowUnknown : Bool) {rules : Fields Rule} (own : rules.keys.Nodup)
    (included : List String) :
    Entries.toValue ((openNames (rules.map Prod.fst) (included.map .str)).zip
      ((rules.map fun e => (e.1, ofRule allowUnknown e.2)).map Prod.snd ++
        ((openNames (rules.map Prod.fst) (included.map .str)).drop rules.length).map
          fun _ => textDocument)) = .object (openProperties allowUnknown rules included) := by
  let fresh := freshNames rules.keys included
  have names : openNames (rules.map Prod.fst) (included.map .str) = (rules.keys ++ fresh).map .str :=
    openNames_texts own included
  have extra : ((rules.keys ++ fresh).map Value.str).drop rules.length = fresh.map .str := by
    have length : (rules.keys.map Value.str).length = rules.length := by
      rw [List.length_map, Fields.keys, List.length_map]
    rw [List.map_append, ← length, List.drop_left]
  have documents : (rules.map fun e => (e.1, ofRule allowUnknown e.2)).map Prod.snd =
      rules.map fun e => ofRule allowUnknown e.2 := List.map_map
  have texts : (fresh.map Value.str).map (fun _ => textDocument) = fresh.map fun _ => textDocument :=
    List.map_map
  have appended : rules.keys.zip (rules.map fun e => ofRule allowUnknown e.2) =
      rules.mapValues (ofRule allowUnknown) := List.zip_map'
  have added : fresh.zip (fresh.map fun _ => textDocument) = textProperties fresh := by
    have pairs : (fresh.map id).zip (fresh.map fun _ => textDocument) = textProperties fresh :=
      List.zip_map'
    rwa [List.map_id] at pairs
  rw [names, extra, documents, texts, toValue_texts _ _ (by simp [Fields.keys]),
    List.zip_append (by simp [Fields.keys]), appended, added]
  rfl

/-- Plain overrides make a document exactly if their appended rules can be read. -/
theorem ofOverrides_plain (allowUnknown : Bool) (o : PlainOverrides) :
    ofOverrides allowUnknown o.overrides = (openRules o.appended).map fun rules =>
      .object (objectKeywords allowUnknown (openProperties allowUnknown rules o.included)
        ((openRequiredNames rules o.required o.optional).map .str)) := by
  cases read : openRules o.appended with
  | error e =>
    simp only [ofOverrides, PlainOverrides.overrides, read, bind, Except.bind, Except.map]
  | ok rules =>
    have own : rules.keys.Nodup := keys_openRules read ▸ o.plain.1
    have properties := openProperties_eq allowUnknown own o.included
    have required := openRequired_texts o rules
    simp only [PlainOverrides.overrides] at required
    simp only [ofOverrides, PlainOverrides.overrides, read, bind, Except.bind, Except.map,
      checkPaths_texts, seekable_texts, required, Bool.not_true, Bool.false_eq_true, if_false,
      ite_self]
    unfold textDocument at properties
    rw [properties]
    rfl

/-! ## Its schema -/

def textSchema : Schema := .document [.type .string]

def textSchemas (names : List String) : List (String × Schema) := names.map fun name => (name, textSchema)

theorem membersOf_eq [CharacterNames] (fs : Fields Value) :
    membersOf fs = fs.mapValues ofDocument := by
  induction fs with
  | nil => rfl
  | cons e rest ih =>
    obtain ⟨name, d⟩ := e
    rw [membersOf, ih]
    rfl

/-- The properties of an open document: those with definitions, then the included names. -/
theorem membersOf_openProperties [CharacterNames] (allowUnknown : Bool) (rules : Fields Rule)
    (included : List String) :
    membersOf (openProperties allowUnknown rules included) =
      membersOf (rules.mapValues (ofRule allowUnknown)) ++
        textSchemas (freshNames rules.keys included) := by
  rw [membersOf_eq, membersOf_eq, openProperties, Fields.mapValues_append]
  exact congrArg (_ ++ ·) List.map_map

section Texts

variable {names others : List String}

/-- Each included name has the schema of a text. -/
theorem get?_textSchemas (names : List String) (name : String) :
    Fields.get? (textSchemas names) name = if name ∈ names then some textSchema else none := by
  induction names with
  | nil => rfl
  | cons other rest ih =>
    change Fields.get? ((other, textSchema) :: textSchemas rest) name = _
    rw [Fields.get?_cons, ih]
    by_cases same : other = name
    · rw [if_pos same, if_pos (List.mem_cons.2 (Or.inl same.symm))]
    · simp only [if_neg same, List.mem_cons, Ne.symm same, false_or]

/-- What comes after does not matter where a property is found first. -/
theorem get?_append_congr {ps qs : List (String × Schema)}
    (same : ∀ name, Fields.get? ps name = Fields.get? qs name) (rs : List (String × Schema))
    (name : String) : Fields.get? (rs ++ ps) name = Fields.get? (rs ++ qs) name := by
  induction rs with
  | nil => exact same name
  | cons e rest ih => rw [List.cons_append, List.cons_append, Fields.get?_cons, Fields.get?_cons, ih]

/-- Included names have no defaults. -/
theorem missingDefaults_texts (rs : List (String × Schema)) (names : List String)
    (present : Fields Value) :
    missingDefaults [.properties (rs ++ textSchemas names)] present =
      missingDefaults [.properties rs] present := by
  have none : (textSchemas names).filterMap (fun e =>
      if present.contains e.1 then none else e.2.default?.map fun v => (e.1, v)) = [] := by
    refine List.filterMap_eq_nil_iff.2 fun e inside => ?_
    obtain ⟨name, _, rfl⟩ := List.mem_map.1 inside
    split <;> rfl
  change (rs ++ textSchemas names).filterMap _ = rs.filterMap _
  rw [List.filterMap_append, none, List.append_nil]

/-- The order of included names does not matter to preparation. -/
theorem preparesAlike_texts (moved : names.Perm others) (rs : List (String × Schema)) :
    PreparesAlike (rs ++ textSchemas names) (rs ++ textSchemas others) := by
  constructor
  · refine get?_append_congr (fun name => ?_) rs
    simp only [get?_textSchemas, moved.mem_iff]
  · intro present
    rw [missingDefaults_texts, missingDefaults_texts]

end Texts

/-! ## Its findings -/

namespace Metaschema

theorem same_texts (s t : String) : same (.str s) (.str t) = decide (s = t) := rfl

/-- Names that come once do not repeat. -/
theorem repeats_texts {names : List String} (own : names.Nodup) :
    repeats (names.map .str) = false := by
  induction names with
  | nil => rfl
  | cons name rest ih =>
    obtain ⟨alone, ownRest⟩ := List.nodup_cons.1 own
    have none : (rest.map Value.str).any (same (.str name)) = false := by
      rw [List.any_map, List.any_eq_false]
      rintro other inside
      have apart : name ≠ other := fun same => alone (same ▸ inside)
      simp [same_texts, apart]
    rw [List.map_cons, repeats, none, ih ownRest]
    rfl

/-- A list of names that come once has no findings. -/
theorem names_texts {names : List String} (own : names.Nodup) :
    Metaschema.names (.list (names.map .str)) = [] := by
  have each : ((names.map Value.str).zipIdx.flatMap fun e =>
      (typed [.string] e.1).map (Finding.under (Decimal.text e.2))) = [] := by
    refine List.flatMap_eq_nil_iff.2 fun e inside => ?_
    obtain ⟨name, _, text⟩ := List.mem_map.1 (List.fst_mem_of_mem_zipIdx inside)
    rw [← text]
    rfl
  rw [Metaschema.names, each, repeats_texts own]
  rfl

theorem ofFields_append [CharacterNames] (fs gs : Fields Value) :
    ofFields (fs ++ gs) = ofFields fs ++ ofFields gs := by
  induction fs with
  | nil => rfl
  | cons e rest ih =>
    obtain ⟨name, d⟩ := e
    rw [List.cons_append, ofFields, ofFields, ih, List.append_assoc]

/-- The documents of included names have no findings. -/
theorem ofFields_texts [CharacterNames] (names : List String) :
    ofFields (textProperties names) = [] := by
  induction names with
  | nil => rfl
  | cons name rest ih =>
    change (findings textDocument).map (Finding.under name) ++ ofFields (textProperties rest) = []
    rw [ih]
    rfl

/-- What is wrong with an object is what is wrong with its properties. -/
theorem findings_objectKeywords [CharacterNames] (allowUnknown : Bool) (ps : Fields Value)
    {required : List String}
    (own : required.Nodup) :
    findings (.object (objectKeywords allowUnknown ps (required.map .str))) =
      (ofFields ps).map (Finding.under "properties") := by
  have type : typeOperand (.str "object") = [] := rfl
  have flag : typed [.object, .boolean] (.bool allowUnknown) = [] := rfl
  cases required with
  | nil =>
    simp [findings, objectKeywords, requiredEntry, keyword, itemsIn, additionalIn, propertiesIn,
      members, type, flag]
  | cons name rest =>
    have once := names_texts own
    rw [List.map_cons] at once
    simp [findings, objectKeywords, requiredEntry, keyword, itemsIn, additionalIn, propertiesIn,
      members, type, flag, once]

end Metaschema

/-- **Without a schema, plain overrides with reordered path lists** make one document and one
validator, or fail in one way. -/
theorem ofOverrides_reordered [CharacterNames] (allowUnknown : Bool) (h : Handling)
    {o p : PlainOverrides}
    (included : o.included.Perm p.included) (optional : o.optional.Perm p.optional)
    (required : o.required.Perm p.required) (appended : o.appended = p.appended) :
    SameOutcome (fun d e => SameDocument d e ∧
        SameOutcome SameValidator (compile h d).outcome (compile h e).outcome)
      (ofOverrides allowUnknown o.overrides) (ofOverrides allowUnknown p.overrides) := by
  rw [ofOverrides_plain, ofOverrides_plain, ← appended]
  cases read : openRules o.appended with
  | error e => exact .failed e
  | ok rules =>
    have own : rules.keys.Nodup := keys_openRules read ▸ o.plain.1
    have fresh := freshNames_perm included rules.keys
    have properties : (openProperties allowUnknown rules o.included).Perm
        (openProperties allowUnknown rules p.included) := (fresh.map _).append_left _
    have names := openRequiredNames_perm rules required optional
    refine .done _ _ ⟨sameDocument_objectKeywords allowUnknown properties (names.map _), ?_⟩
    refine sameOutcome_compile ?_ ?_
    · rw [Metaschema.findings_objectKeywords _ _ (nodup_openRequiredNames own _ _),
        Metaschema.findings_objectKeywords _ _ (nodup_openRequiredNames own _ _), openProperties,
        openProperties, Metaschema.ofFields_append, Metaschema.ofFields_append,
        Metaschema.ofFields_texts, Metaschema.ofFields_texts]
    · rw [ofDocument_objectKeywords, ofDocument_objectKeywords, membersOf_openProperties,
        membersOf_openProperties]
      refine sameValidator_of_perm (prepare_objectSchema _ (preparesAlike_texts fresh _) allowUnknown) ?_
      exact check_objectSchema allowUnknown ((fresh.map _).append_left _) names

end ShapeContract.Wire
