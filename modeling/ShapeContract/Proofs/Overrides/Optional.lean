import ShapeContract.Proofs.Overrides.Removed
import ShapeContract.Proofs.Rule.Eased

/-!
# More optional fields

Further paths in `optional` make a validator ask for less and change nothing else: what is accepted
stays accepted with the same data, and of the errors only such go as tell that a field at one of
those paths is missing.
-/

set_option autoImplicit false

namespace ShapeContract

namespace Overrides

/-- The same overrides with other optional paths. -/
def withOptional (o : Overrides) (optional : List Value) : Overrides := { o with optional }

/-- The path is optional under the second list alone. -/
def Freed (before after : List Value) (path : String) : Prop :=
  lists after path = true ∧ lists before path = false

/-- A longer list of paths lists whatever the shorter one did. -/
theorem lists_mono {before after : List Value} (added : before ⊆ after) {path : String}
    (listed : lists before path = true) : lists after path = true := by
  obtain ⟨v, inside, same⟩ := List.any_eq_true.1 listed
  exact List.any_eq_true.2 ⟨v, added inside, same⟩

/-- Optional paths are listed as they are, or can be looked up. -/
theorem checkPaths_added {before after : List Value} (checked : checkPaths before = .ok ())
    (paths : ∀ v ∈ after, v ∈ before ∨ v.hashable = true) : checkPaths after = .ok () := by
  unfold checkPaths at checked ⊢
  split at checked
  next all =>
    rw [if_pos]
    rw [List.all_eq_true] at all ⊢
    intro v inside
    exact (paths v inside).elim (all v) id
  next => cases checked

/-! ## With a schema -/

section Tree

variable {o : Overrides} {optional : List Value}

/-- The paths that lead to a field at a path that is newly optional. -/
def FreedAt (before after : List Value) (names : List String) : Prop :=
  Freed before after (Text.join "." names)

theorem freedAt_segments {before after : List Value} {path : String}
    (freed : Freed before after path) : FreedAt before after (segments path) := by
  rwa [FreedAt, join_segments]

/-- At the top a path is a name, so the freed paths are the freed names. -/
theorem freedAt_singleton {before after : List Value} {name : String} :
    FreedAt before after [name] ↔ Freed before after name := by
  rw [FreedAt, Text.join, String.intercalate_singleton]

/-- A leaf is adjusted alike, or it is at a newly optional path and no longer required. -/
theorem adjust_eased (added : o.optional ⊆ optional) (path : String) (r : Rule) :
    Rule.LeafEased (FreedAt o.optional optional) (path, o.adjust path r)
      (path, (o.withOptional optional).adjust path r) := by
  have same : ∀ r, Rule.LeafEased (FreedAt o.optional optional) (path, r) (path, r) :=
    fun r => ⟨rfl, .refl _ r, .refl _ r⟩
  unfold adjust
  change Rule.LeafEased _ _ (path, if lists o.required path then r.withRequired true
    else if lists optional path then r.withRequired false else r)
  by_cases required : lists o.required path = true
  · rw [if_pos required, if_pos required]
    exact same _
  rw [if_neg required, if_neg required]
  by_cases before : lists o.optional path = true
  · rw [if_pos before, if_pos (lists_mono added before)]
    exact same _
  rw [if_neg before]
  by_cases after : lists optional path = true
  · rw [if_pos after]
    refine ⟨rfl, ?_, .withRequired _ r false⟩
    cases requiredRule : r.isRequired with
    | false => exact .inl requiredRule
    | true =>
      have freed : Freed o.optional optional path := ⟨after, eq_false_of_ne_true before⟩
      exact .inr ⟨requiredRule, rfl, freedAt_segments freed⟩
  · rw [if_neg after]
    exact same _

/-- Naming more paths optional only frees leaves from being required. -/
theorem selectLeaves_eased (added : o.optional ⊆ optional) (leaves : Fields Rule) :
    List.Forall₂ (Rule.LeafEased (FreedAt o.optional optional)) (o.selectLeaves leaves)
      ((o.withOptional optional).selectLeaves leaves) := by
  unfold selectLeaves
  change List.Forall₂ _ _ ((leaves.filter fun e => o.keeps e.1).map _)
  rw [List.forall₂_map_left_iff, List.forall₂_map_right_iff]
  exact List.forall₂_same.2 fun e _ => adjust_eased added e.1 e.2

/-- Appending the same rules to both keeps that. -/
theorem putAll_eased {free : List String → Prop} {leaves others : Fields Rule}
    (eased : List.Forall₂ (Rule.LeafEased free) leaves others) (rules : Fields Rule) :
    List.Forall₂ (Rule.LeafEased free) (leaves.putAll rules) (others.putAll rules) :=
  Fields.forall₂_putAll (fun _ _ eased => eased.1) eased
    (List.forall₂_same.2 fun e _ => ⟨rfl, .refl _ e.2, .refl _ e.2⟩)

/-- Overrides check when each of their four path lists does. -/
theorem checkAll_ok_iff {o : Overrides} :
    o.checkAll = .ok () ↔ checkPaths o.included = .ok () ∧ checkPaths o.excluded = .ok () ∧
      checkPaths o.optional = .ok () ∧ checkPaths o.required = .ok () := by
  simp only [checkAll, Rule.bind_ok_iff]
  constructor
  · rintro ⟨⟨⟩, included, ⟨⟩, excluded, ⟨⟩, optional, required⟩
    exact ⟨included, excluded, optional, required⟩
  · rintro ⟨included, excluded, optional, required⟩
    exact ⟨(), included, (), excluded, (), optional, required⟩

/-- The effective leaves are the selected ones with the appended rules written over them. -/
theorem effective_ok_iff {tree : Rule} {leaves : Fields Rule} :
    o.effective tree = .ok leaves ↔ o.checkAll = .ok () ∧ ∃ rules,
      appendedRules o.appended = .ok rules ∧
        (o.selectLeaves (tree.flatten "")).putAll rules = leaves := by
  unfold effective
  simp only [Rule.bind_ok_iff]
  constructor
  · rintro ⟨⟨⟩, checked, rules, read, ⟨⟩⟩
    exact ⟨checked, rules, read, rfl⟩
  · rintro ⟨checked, rules, read, rfl⟩
    exact ⟨(), checked, rules, read, rfl⟩

/-- Overrides apply when their leaves are effective, and the tree is built from those. -/
theorem apply_ok_iff {tree adapted : Rule} :
    o.apply tree = .ok adapted ↔ ∃ leaves, o.effective tree = .ok leaves ∧ build leaves = adapted := by
  unfold apply
  simp only [Rule.bind_ok_iff]
  constructor
  · rintro ⟨leaves, made, ⟨⟩⟩
    exact ⟨leaves, made, rfl⟩
  · rintro ⟨leaves, made, rfl⟩
    exact ⟨leaves, made, rfl⟩

/-- **With more optional paths the tree is adapted too**, to one in step with the tree before. -/
theorem apply_withOptional (added : o.optional ⊆ optional)
    (paths : ∀ v ∈ optional, v ∈ o.optional ∨ v.hashable = true) {tree adapted : Rule}
    (made : o.apply tree = .ok adapted) :
    ∃ eased, (o.withOptional optional).apply tree = .ok eased ∧
      Rule.Eased (FreedAt o.optional optional) adapted eased := by
  obtain ⟨leaves, listed, rfl⟩ := apply_ok_iff.1 made
  obtain ⟨checked, rules, read, rfl⟩ := effective_ok_iff.1 listed
  obtain ⟨included, excluded, before, required⟩ := checkAll_ok_iff.1 checked
  refine ⟨_, apply_ok_iff.2 ⟨_, effective_ok_iff.2 ⟨?_, rules, read, rfl⟩, rfl⟩, ?_⟩
  · exact checkAll_ok_iff.2 ⟨included, excluded, checkPaths_added before paths, required⟩
  · exact build_eased (putAll_eased (selectLeaves_eased added _) rules)

end Tree

end Overrides

namespace Wire

open Overrides (Freed FreedAt lists)
open Schema (ofDocument)

namespace Metaschema

/-- Names that are left of a clean list are a clean list. -/
theorem clean_names_of_sublist {vs ws : List Value} (left : ws.Sublist vs)
    (clean : names (.list vs) = []) : names (.list ws) = [] := by
  obtain ⟨texts, apart⟩ := clean_names_iff.1 clean
  exact clean_names_iff.2 ⟨fun v inside => texts v (left.subset inside), apart.sublist left⟩

/-- Fewer required names stay distinct texts. -/
theorem clean_requiredNames_eased {free : List String → Prop} {cs ds : Fields Rule}
    (fields : List.Forall₂ (Rule.ChildEased free) cs ds)
    (clean : names (.list (requiredNames cs)) = []) : names (.list (requiredNames ds)) = [] := by
  rw [requiredNames_eq] at clean ⊢
  exact clean_names_of_sublist ((thinned_ownRequired fields).sublist.map _) clean

/-- Children eased one by one are still clean documents. -/
theorem clean_fields_eased [CharacterNames] {a : Bool} {free : List String → Prop}
    {cs ds : Fields Rule}
    (fields : List.Forall₂ (Rule.ChildEased free) cs ds)
    (each : ∀ e ∈ cs, ∀ {free : List String → Prop} {d : Rule}, Rule.Eased free e.2 d →
      findings (ofRule a e.2) = [] → findings (ofRule a d) = [])
    (clean : members (.object (cs.mapValues (ofRule a))) = []) :
    members (.object (ds.mapValues (ofRule a))) = [] := by
  rw [clean_members_iff, Fields.mapValues, List.forall_mem_map] at clean ⊢
  induction fields with
  | nil => exact clean
  | cons head _ ih =>
    obtain ⟨own, others⟩ := List.forall_mem_cons.1 each
    obtain ⟨first, rest⟩ := List.forall_mem_cons.1 clean
    exact List.forall_mem_cons.2 ⟨own head.2.2 first, ih others rest⟩

/-- With fewer names required a clean document stays clean. -/
theorem clean_ofRule_eased [CharacterNames] (a : Bool) {free : List String → Prop} {r s : Rule}
    (eased : Rule.Eased free r s) (clean : findings (ofRule a r) = []) :
    findings (ofRule a s) = [] := by
  induction r using Rule.induct generalizing free s with
  | node f items children _ kids =>
    by_cases isObject : f.type = .object
    · have fields := eased.kids
      obtain ⟨g, inner, others⟩ := s
      have type : f.type = g.type := Facets.type_of_unrequired eased.1
      rw [ofRule_of_object _ isObject, clean_objectDocument_iff, ofChildren_eq] at clean
      rw [ofRule_of_object _ (type.symm.trans isObject), clean_objectDocument_iff, ofChildren_eq]
      refine ⟨clean_requiredNames_eased fields clean.1, ?_⟩
      exact clean_fields_eased fields (fun e inside => kids e inside) clean.2
    · rwa [← ofRule_eased a eased isObject]

end Metaschema

/-! ## Without a schema -/

section Open

variable {o : Overrides} {optional : List Value}

theorem among_mono {before after : List Value} (added : before ⊆ after) {v : Value}
    (inside : v.among before = true) : v.among after = true := by
  obtain ⟨w, among, same⟩ := List.any_eq_true.1 inside
  exact List.any_eq_true.2 ⟨w, added among, same⟩

/-- A text is among the values exactly if its path is listed. -/
theorem among_eq_lists {v : Value} {name : String} (text : v.text? = some name) (vs : List Value) :
    v.among vs = lists vs name := by
  unfold lists Value.among
  congr 1
  funext w
  rw [Value.equal_text text, Value.equal_text (v := .str name) rfl]

/-- Without a schema, too, an optional name is taken from the required ones. -/
theorem openRequired_withOptional (added : o.optional ⊆ optional) (rules : Fields Rule) :
    openRequired (o.withOptional optional) rules =
      (openRequired o rules).filter fun v => !v.among optional := by
  unfold openRequired
  rw [List.filter_filter]
  refine List.filter_congr fun v _ => ?_
  change (!v.among optional) = _
  cases before : v.among o.optional with
  | false => simp
  | true => simp [among_mono added before]

/-- A list reads as names when each of its values is the text of one. -/
theorem mapM_text?_iff {vs : List Value} {names : List String} :
    vs.mapM Value.text? = some names ↔ vs.map Value.text? = names.map some := by
  induction vs generalizing names with
  | nil => cases names <;> simp
  | cons v rest ih =>
    cases names with
    | nil => simp [List.mapM_cons, Option.bind_eq_some_iff]
    | cons name others => simp [List.mapM_cons, Option.bind_eq_some_iff, ih]

/-- Taking out listed values takes out the names they write. -/
theorem mapM_text?_filter {vs : List Value} {names : List String}
    (texts : vs.mapM Value.text? = some names) (others : List Value) :
    (vs.filter fun v => !v.among others).mapM Value.text? =
      some (names.filter fun name => !lists others name) := by
  rw [mapM_text?_iff] at texts ⊢
  induction vs generalizing names with
  | nil => cases names <;> simp_all
  | cons v rest ih =>
    cases names with
    | nil => cases texts
    | cons name more =>
      obtain ⟨text, later⟩ := List.cons.inj texts
      rw [List.filter_cons, List.filter_cons, among_eq_lists text]
      split
      · rw [List.map_cons, List.map_cons, text, ih later]
      · exact ih later

/-- Of the required names those are left out that are newly optional. -/
theorem thinned_openRequired {rules : Fields Rule} {names : List String}
    (texts : (openRequired o rules).mapM Value.text? = some names) :
    Thinned (fun name => FreedAt o.optional optional [name]) names
      (names.filter fun name => !lists optional name) := by
  refine Thinned.of_filter fun name inside dropped => ?_
  refine Overrides.freedAt_singleton.2 ⟨by simpa using dropped, ?_⟩
  have among : some name ∈ (openRequired o rules).map Value.text? := by
    rw [mapM_text?_iff.1 texts]
    exact List.mem_map_of_mem inside
  obtain ⟨v, required, text⟩ := List.mem_map.1 among
  have kept := List.of_mem_filter required
  rwa [among_eq_lists text, Bool.not_eq_true'] at kept

/-- **Without a schema more optional names make a document too**, whose schema asks for less. -/
theorem ofOverrides_withOptional [CharacterNames] (added : o.optional ⊆ optional)
    (paths : ∀ v ∈ optional, v ∈ o.optional ∨ v.hashable = true) {a : Bool} {d : Value}
    (made : ofOverrides a o = .ok d) (clean : Metaschema.findings d = []) :
    ∃ d', ofOverrides a (o.withOptional optional) = .ok d' ∧ Metaschema.findings d' = [] ∧
      Relaxes (FreedAt o.optional optional) (ofDocument d) (ofDocument d') := by
  obtain ⟨rules, read, included, checked, seekable, rfl⟩ := ofOverrides_ok_iff.1 made
  obtain ⟨namesClean, propertiesClean⟩ := Metaschema.clean_objectDocument_iff.1 clean
  obtain ⟨names, texts⟩ := Metaschema.exists_texts_of_names namesClean
  have required := openRequired_withOptional added rules
  -- The properties are the same; only the list of required names is shorter.
  refine ⟨_, ofOverrides_ok_iff.2 ⟨rules, read, included, ?_, seekable, rfl⟩, ?_, ?_⟩
  · exact fun some => Overrides.checkPaths_added (checked some) paths
  · refine Metaschema.clean_objectDocument_iff.2 ⟨?_, propertiesClean⟩
    rw [required]
    exact Metaschema.clean_names_of_sublist List.filter_sublist namesClean
  · have left := mapM_text?_filter texts optional
    rw [← required] at left
    rw [ofDocument_objectDocument a _ texts, ofDocument_objectDocument a _ left]
    exact .object (.refl _ _) (thinned_openRequired texts) a none

end Open

/-! ## Validators -/

/-- The document of an eased tree stays clean, and it only loses demands for the freed paths. -/
theorem ofTree_eased [CharacterNames] (a : Bool) {free : List String → Prop} {t s : Rule}
    (eased : Rule.Eased free t s)
    (clean : Metaschema.findings (ofTree a t) = []) :
    Metaschema.findings (ofTree a s) = [] ∧
      Relaxes free (ofDocument (ofTree a t)) (ofDocument (ofTree a s)) := by
  have roots : Rule.Eased free ⟨Rule.empty.facets, none, some t.kids⟩
      ⟨Rule.empty.facets, none, some s.kids⟩ :=
    ⟨rfl, rfl, _, rfl, Rule.fieldsEased_iff.2 eased.kids⟩
  exact ⟨Metaschema.clean_ofRule_eased a roots clean, relaxes_schemaOf a roots⟩

namespace Origin

/-- The validator of a schema, or of none, under overrides. -/
def validatorOf [CharacterNames] (base : Option Rule) (o : Overrides) (h : Handling) :
    Except Failure Validator := do
  (← adapted base o).validator h

/-- What a registry derives for a schema and overrides: the document of what the overrides make of
the tree of the schema. -/
theorem derive_eq (env : Environment) (schema : Option Subject) (o : Overrides) (a : Bool) :
    env.derive schema o a = (do
      let base ← schema.mapM env.tree
      (← adapted base o).document a) := by
  cases schema with
  | none => rfl
  | some s =>
    rw [Environment.derive, Option.mapM_some]
    cases env.tree s with
    | error e => rfl
    | ok tree =>
      simp only [bind, Except.bind, pure, Except.pure, Functor.map, Except.map, adapted]
      cases o.apply tree <;> rfl

/-- From every origin, naming more paths optional gives a validator that asks for less at exactly
those paths. -/
theorem relaxes_withOptional [CharacterNames] {base : Option Rule} {o : Overrides}
    {optional : List Value}
    (added : o.optional ⊆ optional) (paths : ∀ v ∈ optional, v ∈ o.optional ∨ v.hashable = true)
    {h : Handling} {c : Validator} (built : validatorOf base o h = .ok c) :
    ∃ t, validatorOf base (o.withOptional optional) h = .ok ⟨t, h⟩ ∧
      c.handling = h ∧ Relaxes (FreedAt o.optional optional) c.schema t := by
  obtain ⟨s, made, built⟩ := Rule.bind_ok_iff.1 built
  obtain ⟨d, document, clean, rfl⟩ := validator_ok_iff.1 built
  cases base with
  | none =>
    cases made
    obtain ⟨d', document', clean', relaxes⟩ := ofOverrides_withOptional added paths document clean
    exact ⟨_, Rule.bind_ok_iff.2 ⟨_, rfl, validator_ok_iff.2 ⟨d', document', clean', rfl⟩⟩, rfl,
      relaxes⟩
  | some tree =>
    cases applied : o.apply tree with
    | error e => rw [adapted, applied] at made; cases made
    | ok t =>
      rw [adapted, applied] at made
      cases made
      cases document
      obtain ⟨t', applied', eased⟩ := Overrides.apply_withOptional added paths applied
      obtain ⟨clean', relaxes⟩ := ofTree_eased h.allowUnknown eased clean
      refine ⟨_, Rule.bind_ok_iff.2 ⟨.tree t', ?_, validator_ok_iff.2 ⟨_, rfl, clean', rfl⟩⟩, rfl,
        relaxes⟩
      rw [adapted, applied']
      rfl

/-- **More optional fields only relax.** Under overrides with further optional paths, with a schema
or without one, a validator accepts what it accepted before, with the same data; and its errors on
any payload are those before, in order, but for some that tell that a field is missing at a path
that is newly optional. -/
theorem validate_withOptional [CharacterNames] {base : Option Rule} {o : Overrides}
    {optional : List Value}
    (added : o.optional ⊆ optional) (paths : ∀ v ∈ optional, v ∈ o.optional ∨ v.hashable = true)
    {h : Handling} {c : Validator} (built : validatorOf base o h = .ok c) :
    ∃ c', validatorOf base (o.withOptional optional) h = .ok c' ∧
      (∀ p d, c.validate p = .ok (.accepted d) → c'.validate p = .ok (.accepted d)) ∧
      ∀ p, (∃ e, c.validate p = .error e ∧ c'.validate p = .error e) ∨
        ∃ before after, c.validate p = .ok before ∧ c'.validate p = .ok after ∧
          Thinned (fun e => e.error = "required" ∧ Overrides.Freed o.optional optional e.field)
            before.errors after.errors := by
  obtain ⟨t, relaxed, handling, relaxes⟩ := relaxes_withOptional added paths built
  obtain ⟨s, _⟩ := c
  subst handling
  refine ⟨_, relaxed, fun p d accepted => relaxes.accepted accepted, fun p => ?_⟩
  refine relaxes.verdicts (fun e missing => ?_) _ p
  exact ⟨missing.1, missing.2.2⟩

section

attribute [local instance] CharacterNames.common

/-- The city of a place is made optional where its name is already. -/
theorem validate_withOptional_city :
    let text : Rule := ⟨{ type := .string, required := some (.bool true) }, none, none⟩
    let place : Rule := ⟨{ type := .object }, none, some [("name", text), ("city", text)]⟩
    let tree : Rule := ⟨{ type := .object }, none, some [("place", place)]⟩
    let o : Overrides := { optional := [.str "place.name"] }
    let optional : List Value := [.str "place.city", .str "place.name"]
    o.optional ⊆ optional ∧ (∀ v ∈ optional, v ∈ o.optional ∨ v.hashable = true) ∧
      ∃ c, validatorOf (some tree) o ⟨false, false⟩ = .ok c ∧
        ∃ c', validatorOf (some tree) (o.withOptional optional) ⟨false, false⟩ = .ok c' ∧
          (∀ p d, c.validate p = .ok (.accepted d) → c'.validate p = .ok (.accepted d)) ∧
          ∀ p, (∃ e, c.validate p = .error e ∧ c'.validate p = .error e) ∨
            ∃ before after, c.validate p = .ok before ∧ c'.validate p = .ok after ∧
              Thinned (fun e => e.error = "required" ∧ Overrides.Freed o.optional optional e.field)
                before.errors after.errors := by
  intro text place tree o optional
  have added : o.optional ⊆ optional := List.subset_cons_self _ _
  have paths : ∀ v ∈ optional, v ∈ o.optional ∨ v.hashable = true := by
    simp [optional, Value.hashable]
  obtain ⟨t, made, clean⟩ : ∃ t, o.apply tree = .ok t ∧
      (Metaschema.findings (ofTree false t)).isEmpty = true :=
    ⟨_, rfl, by decide +kernel⟩
  have built : validatorOf (some tree) o ⟨false, false⟩ =
      .ok ⟨ofDocument (ofTree false t), ⟨false, false⟩⟩ := by
    refine Rule.bind_ok_iff.2 ⟨.tree t, ?_, validator_ok_iff.2
      ⟨_, rfl, List.isEmpty_iff.1 clean, rfl⟩⟩
    rw [adapted, made]
    rfl
  exact ⟨added, paths, _, built, validate_withOptional added paths built⟩

end

end Origin

end Wire

end ShapeContract
