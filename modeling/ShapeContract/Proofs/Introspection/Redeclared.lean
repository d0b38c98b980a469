import ShapeContract.Proofs.Introspection.Grown
import ShapeContract.Proofs.Introspection.Levels
import ShapeContract.Proofs.Overrides.Unflagged
import ShapeContract.Proofs.Registry.Transparency

/-!
# Nested blocks and embedded documents

A nested block may also be declared as a document of its own that is embedded. Introspection then
makes the object that holds its fields in another way, by a schema below a path and not by dotted
paths, and says of it that it is not required. Adapting the tree makes such objects again, and the
wire document never tells them apart: `Introspection.redeclared_alike`.
-/

set_option autoImplicit false

namespace ShapeContract

namespace Document

/-! ## Descriptors of elements -/

/-- The descriptor of elements that are a nested block. -/
theorem describe_block {fs : List (String × Value)} (block : isBlock (.object fs) = true)
    {options : Fields Value} {c : Descriptor} (read : describe true options (.object fs) = .ok c) :
    ∃ paths, declareFields [] "" fs = (paths, none) ∧
      c = { kind := .str SchemaKind.embedded.text, options := .object [], block := some paths } := by
  rw [isBlock, Bool.not_eq_true'] at block
  rw [describe, block] at read
  cases declared : declareFields [] "" fs with
  | mk paths failure =>
    rw [declared] at read
    cases failure with
    | none => exact ⟨paths, rfl, (Except.ok.inj read).symm⟩
    | some e => cases read

/-- A non-empty list literal describes an array whose element is read off its first entry alone. -/
theorem describe_list {v : Value} {vs : List Value} {element : Bool} {options : Fields Value}
    {d : Descriptor} (read : describe element options (.list (v :: vs)) = .ok d) :
    ∃ c, describe true [] v = .ok c ∧
      d = { kind := .str SchemaKind.array.text, options := .object options, caster := some c } := by
  obtain ⟨c, element, same⟩ := Rule.bind_ok_iff.1 read
  exact ⟨c, element, (Except.ok.inj same).symm⟩

/-! ## Redeclared definitions -/

/-- A document that was made of a definition, without a failure. -/
structure MadeOf (catalog : Catalog) (r : SourceRef) (fs : List (String × Value)) : Prop where
  document : isDocument r = true
  source : ∃ name paths, catalog.source? r = some (.document name paths) ∧
    ofDefinition (.object fs) = (paths, none)

mutual

/-- Another declaration of the same shape: nested blocks may be embedded as documents of their own.
With `elements` this may be so in the elements of arrays, of which the first one counts. -/
inductive Redeclared (catalog : Catalog) (elements : Bool) : Value → Value → Prop
  | same {v : Value} (leaf : isBlock v = false) : Redeclared catalog elements v v
  | kept {fs gs : List (String × Value)} (block : isBlock (.object fs) = true)
    (block' : isBlock (.object gs) = true) (fields : RedeclaredFields catalog elements fs gs) :
    Redeclared catalog elements (.object fs) (.object gs)
  | embedded {fs gs : List (String × Value)} {r : SourceRef} (block : isBlock (.object fs) = true)
    (made : MadeOf catalog r gs) (fields : RedeclaredFields catalog elements fs gs) :
    Redeclared catalog elements (.object fs) (.source r)
  | list {v w : Value} (vs ws : List Value) (inside : elements = true)
    (element : Redeclared catalog elements v w) :
    Redeclared catalog elements (.list (v :: vs)) (.list (w :: ws))
  | typed {v w : Value} (vs ws : List Value) {before after : List (String × Value)}
    (inside : elements = true) (first : "type" ∉ Fields.keys before)
    (element : Redeclared catalog elements v w) :
    Redeclared catalog elements (.object (before ++ ("type", .list (v :: vs)) :: after))
      (.object (before ++ ("type", .list (w :: ws)) :: after))

inductive RedeclaredFields (catalog : Catalog) (elements : Bool) :
    List (String × Value) → List (String × Value) → Prop
  | nil : RedeclaredFields catalog elements [] []
  | cons {key : String} {v w : Value} {fs gs : List (String × Value)}
    (here : Redeclared catalog elements v w) (later : RedeclaredFields catalog elements fs gs) :
    RedeclaredFields catalog elements ((key, v) :: fs) ((key, w) :: gs)

end

section Typed

variable {before after : List (String × Value)} (x : Value)

theorem contains_typed : Fields.contains (before ++ ("type", x) :: after) "type" = true :=
  Fields.contains_iff.2 ⟨x, List.mem_append_right _ List.mem_cons_self⟩

/-- A mapping with a `type` is an options mapping, never a block of fields. -/
theorem isBlock_typed : isBlock (.object (before ++ ("type", x) :: after)) = false := by
  rw [isBlock, contains_typed]
  rfl

variable (first : "type" ∉ Fields.keys before)

include first

/-- Wherever `type` stands in the mapping, it is the declaration under it that is described. -/
theorem describeType_typed (options : Fields Value) :
    describeType options (before ++ ("type", x) :: after) = describe false options x := by
  induction before with
  | nil => rfl
  | cons e rest ih =>
    obtain ⟨key, v⟩ := e
    obtain ⟨other, later⟩ := not_or.1 (mt List.mem_cons.2 first)
    rw [List.cons_append, describeType_cons, if_neg (Ne.symm other), ih later]

/-- The options of a typed declaration are the other keys, whatever the type. -/
theorem descriptorOf_typed : descriptorOf (.object (before ++ ("type", x) :: after)) =
    describe false (Fields.erase (before ++ after) "type") x := by
  have options : Fields.erase (before ++ ("type", x) :: after) "type" =
      Fields.erase (before ++ after) "type" := by
    simp [Fields.erase]
  rw [descriptorOf, describeType_typed x first, options]

/-- As an element, a declaration with a `type` is what stands under `type`, with the other entries
for options. -/
theorem describe_typed : describe true [] (.object (before ++ ("type", x) :: after)) =
    describe false (Fields.erase (before ++ after) "type") x := by
  rw [← descriptorOf_typed x first, describe, contains_typed]
  rfl

theorem tidyType_typed : TidyType (before ++ ("type", x) :: after) ↔ Tidy x := by
  induction before with
  | nil => rw [List.nil_append, TidyType, if_pos rfl]
  | cons e rest ih =>
    obtain ⟨key, v⟩ := e
    obtain ⟨other, later⟩ := not_or.1 (mt List.mem_cons.2 first)
    rw [List.cons_append, TidyType, if_neg (Ne.symm other), ih later]

/-- Only what stands under `type` has to be tidy. -/
theorem tidy_typed : Tidy (.object (before ++ ("type", x) :: after)) ↔ Tidy x := by
  rw [Tidy, if_pos (contains_typed x), tidyType_typed x first]

end Typed

variable {catalog : Catalog} {elements : Bool}

/-- A second declaration names the same fields in the same order. -/
theorem RedeclaredFields.keys {fs gs : List (String × Value)}
    (fields : RedeclaredFields catalog elements fs gs) : Fields.keys gs = Fields.keys fs := by
  match fields with
  | .nil => rfl
  | .cons _ later => exact congrArg (_ :: ·) later.keys

theorem RedeclaredFields.ne_nil {fs gs : List (String × Value)}
    (fields : RedeclaredFields catalog elements fs gs) (some : fs ≠ []) : gs ≠ [] := by
  cases fields with
  | nil => exact some
  | cons => exact List.cons_ne_nil _ _

mutual

/-- A second declaration of something tidy is tidy: the class it makes of a block keeps the names of
the block apart. -/
theorem Redeclared.tidy {v w : Value} (again : Redeclared catalog elements v w) (tidy : Tidy v) :
    Tidy w := by
  match again with
  | .same _ => exact tidy
  | .kept block block' fields =>
    obtain ⟨some, deep⟩ := (tidy_block block).1 tidy
    exact (tidy_block block').2 ⟨fields.ne_nil some, fields.tidy deep⟩
  | .embedded .. => trivial
  | .list _ _ _ element => exact element.tidy tidy
  | .typed _ _ _ first element =>
    rw [tidy_typed _ first, Tidy] at tidy ⊢
    exact element.tidy tidy

theorem RedeclaredFields.tidy {fs gs : List (String × Value)}
    (fields : RedeclaredFields catalog elements fs gs) (tidy : TidyFields fs) : TidyFields gs := by
  match fields with
  | .nil => trivial
  | .cons here later =>
    obtain ⟨segment, new, first, rest⟩ := tidy
    exact ⟨segment, later.keys ▸ new, here.tidy first, later.tidy rest⟩

end

end Document

namespace Introspection

open Document (Redeclared RedeclaredFields Tidy TidyFields isBlock placed placedAt Read descriptorOf)
open Rule (unflagged)

variable {catalog : Catalog} {bound : Int} {elements e : Bool}

/-! ## Rules of what embeds -/

/-- The rule of an embedded schema without options. -/
theorem outcome_ruleOf_embedded (descend : Target → Traced Rule) (r : SourceRef) :
    (ruleOf descend { kind := .str SchemaKind.embedded.text, options := .object [],
                      schema := some (.source r) }).outcome =
      (descend (.value (.source r))).outcome.map fun sub =>
        ⟨fieldFacets .object [], none, sub.children⟩ := by
  rw [outcome_ruleOf (.embedded [] r) (Descriptor.wellFormed_of_optionless rfl nofun)]
  simp only [itemsOf, childrenOf, Target.of?, Option.map_some]
  cases (descend (.value (.source r))).outcome <;> rfl

/-- A descriptor that embeds a target without options. -/
structure Embeds (c : Descriptor) (target : Target) : Prop where
  tag : c.kind = .str SchemaKind.embedded.text
  plain : c.options = .object []
  embeds : Target.of? c = some target

/-- The rule of elements that are an embedded schema or a block of paths. -/
theorem outcome_itemsRule_embedded (descend : Target → Traced Rule) {c : Descriptor} {target : Target}
    (embeds : Embeds c target) :
    (itemsRule descend c).outcome = (descend target).outcome.map fun sub =>
      ⟨Rule.empty.facets, none, sub.children⟩ := by
  obtain ⟨kind, options, caster, schema, block⟩ := c
  obtain ⟨rfl, rfl, embeds⟩ := embeds
  unfold itemsRule
  simp only [embeds, Traced.outcome_bind, Traced.outcome_lift]
  cases (descend target).outcome <;> rfl

/-- The rule of elements that are arrays says nothing of their elements. -/
theorem outcome_itemsRule_array (descend : Target → Traced Rule) (options : Fields Value)
    (caster : Option Descriptor) :
    (itemsRule descend { kind := .str SchemaKind.array.text, options := .object options,
                         caster := caster }).outcome = .ok (Rule.bare .array) := by
  cases options <;> rfl

/-- The rule of an array with elements. -/
theorem outcome_ruleOf_array (descend : Target → Traced Rule) (options : Fields Value)
    (c : Descriptor) :
    (ruleOf descend { kind := .str SchemaKind.array.text, options := .object options,
                      caster := some c }).outcome =
      (itemsRule descend c).outcome.map fun r => ⟨fieldFacets .array options, some r, none⟩ := by
  have read : optionsOf { kind := .str SchemaKind.array.text, options := .object options,
                          caster := some c } = .ok options := by
    cases options <;> rfl
  have built (r : Rule) :
      (⟨liftDefault { fieldFacets .array options with default := none } options, some r, none⟩ : Rule) =
        ⟨fieldFacets .array options, some r, none⟩ := by
    rw [liftDefault_fieldFacets]
  have tag : mapKind (.str SchemaKind.array.text) = .ok .array := rfl
  unfold ruleOf
  simp only [Traced.outcome_bind, Traced.outcome_lift, read, tag]
  simp only [bind, Except.bind]
  dsimp only [Traced.bind]
  cases (itemsRule descend c).outcome with
  | error e => rfl
  | ok r => exact congrArg Except.ok (built r)

/-! ## Agreement -/

/-- Schemas below every path are introspected with so many levels left. -/
def Levelled (catalog : Catalog) (bound : Int) (levels : Nat)
    (descend : String → Target → Traced Rule) : Prop :=
  ∀ name, ∃ depth path, descend name = walk catalog bound depth path levels

/-- Fields that are the same without the flag of objects that hold others. -/
def SameKids (e : Bool) (ks js : Fields Rule) : Prop :=
  ks.mapValues (unflagged e) = js.mapValues (unflagged e)

/-- A second definition grows to the fields of a first one, if it is not too deep for the levels that
are left. The first may have more of them. -/
def AgreeFields (catalog : Catalog) (bound : Int) (e : Bool) (gs fs : List (String × Value)) : Prop :=
  ∀ levels levels' descend descend' path path', Levelled catalog bound levels descend →
    Levelled catalog bound levels' descend' → levels ≤ levels' →
    UpToDepth (SameKids e) (grown (fieldRule descend) path gs) (grown (fieldRule descend') path' fs)

/-- The same of declarations at a key. -/
def AgreeAt (catalog : Catalog) (bound : Int) (e : Bool) (w v : Value) : Prop :=
  ∀ levels levels' descend descend' path path', Levelled catalog bound levels descend →
    Levelled catalog bound levels' descend' → levels ≤ levels' →
    UpToDepth (fun r s => unflagged e r = unflagged e s) (grownAt (fieldRule descend) path w)
      (grownAt (fieldRule descend') path' v)

/-- The same of the elements of arrays. -/
def AgreeElements (catalog : Catalog) (bound : Int) (c' c : Descriptor) : Prop :=
  ∀ levels levels' depth depth' path path', levels ≤ levels' →
    UpToDepth (fun r s => unflagged true r = unflagged true s)
      (itemsRule (walk catalog bound depth path levels) c').outcome
      (itemsRule (walk catalog bound depth' path' levels') c).outcome

/-- Alike children are missing together, so both declarations take the same branch on an empty
block. -/
theorem SameKids.nil_iff {ks js : Fields Rule} (same : SameKids e ks js) : ks = [] ↔ js = [] := by
  have length := congrArg List.length same
  rw [Fields.mapValues, Fields.mapValues, List.length_map, List.length_map] at length
  rw [← List.length_eq_zero_iff, ← List.length_eq_zero_iff, length]

/-- Objects of alike children are one object once the flags are dropped. -/
theorem unflagged_holder {ks js : Fields Rule} (same : SameKids e ks js) :
    unflagged e (holder ks) = unflagged e (holder js) := by
  by_cases none : ks = []
  · rw [none, same.nil_iff.1 none]
  · have inner : (holder ks).Inner := ⟨rfl, none⟩
    have inner' : (holder js).Inner := ⟨rfl, mt same.nil_iff.2 none⟩
    rw [Rule.unflagged_of_inner inner, Rule.unflagged_of_inner inner']
    exact congrArg (fun kids => Rule.mk _ _ (some kids)) same

/-- Of an embedded document without options only the flag tells it from a nested block. -/
theorem unflagged_embedded {ks js : Fields Rule} (filled : ks ≠ []) (same : SameKids e ks js) :
    unflagged e ⟨fieldFacets .object [], none, some ks⟩ = unflagged e (holder js) := by
  have inner : Rule.Inner ⟨fieldFacets .object [], none, some ks⟩ := ⟨rfl, filled⟩
  have inner' : (holder ks).Inner := ⟨rfl, filled⟩
  rw [← unflagged_holder same, Rule.unflagged_of_inner inner, Rule.unflagged_of_inner inner']
  rfl

/-- A target that lists what a definition declares. -/
def Lists (catalog : Catalog) (target : Target) (fs : List (String × Value)) : Prop :=
  ∃ paths : Fields Descriptor, target.entries catalog = .ok (paths.map fun p => (p.1, .ok p.2)) ∧
    Document.declareFields [] "" fs = (paths, none) ∧ TidyFields fs

/-- A class made of the fields lists those fields, as the block itself does. -/
theorem lists_document {r : SourceRef} {fs : List (String × Value)}
    (made : Document.MadeOf catalog r fs) (tidy : TidyFields fs) :
    Lists catalog (.value (.source r)) fs := by
  obtain ⟨name, paths, source, declared⟩ := made.source
  refine ⟨paths, ?_, (Document.ofDefinition_object fs).symm.trans declared, tidy⟩
  simp only [Target.entries, source]
  rfl

/-- What a target lists has descriptors. -/
theorem Lists.read {target : Target} {fs : List (String × Value)} (lists : Lists catalog target fs) :
    Read (placed fs) :=
  lists.elim fun _ listed => Document.read_placed listed.2.2 listed.2.1

/-- Targets with definitions that agree. -/
theorem agree_walk {target target' : Target} {fs gs : List (String × Value)}
    (agree : AgreeFields catalog bound e gs fs) (lists : Lists catalog target fs)
    (lists' : Lists catalog target' gs) {levels levels' : Nat} (more : levels ≤ levels')
    (depth depth' : Nat) (path path' : String) :
    UpToDepth (fun t u => ∃ ks js, t = holder ks ∧ u = holder js ∧ SameKids e ks js)
      (walk catalog bound depth path levels target').outcome
      (walk catalog bound depth' path' levels' target).outcome := by
  obtain ⟨paths, entries, declared, tidy⟩ := lists
  obtain ⟨paths', entries', declared', tidy'⟩ := lists'
  cases levels with
  | zero => exact .tooDeep bound _ _
  | succ levels =>
    obtain ⟨levels', rfl⟩ := Nat.exists_eq_succ_of_ne_zero (Nat.ne_zero_of_lt more)
    rw [outcome_walk bound depth path levels entries' declared' tidy',
      outcome_walk bound depth' path' levels' entries declared tidy]
    refine (agree levels levels' _ _ "" "" (fun _ => ⟨_, _, rfl⟩) (fun _ => ⟨_, _, rfl⟩)
      (Nat.le_of_succ_le_succ more)).map fun ks js same => ⟨ks, js, rfl, rfl, same⟩

/-! ## Along the second declaration -/

/-- What both declarations share outright gives the same rule in both. -/
theorem agreeAt_of_leaf {v : Value} (leaf : isBlock v = false) : AgreeAt catalog bound e v v := by
  intro levels levels' descend descend' path path' below below' more
  obtain ⟨depth, at', walks⟩ := below path
  obtain ⟨depth', at'', walks'⟩ := below' path'
  rw [grownAt_of_leaf _ leaf, grownAt_of_leaf _ leaf, fieldRule, fieldRule, walks, walks']
  refine (UpToDepth.refl (fun _ => rfl) _).bind fun d d' (same : d = d') => ?_
  exact same ▸ (upToDepth_ruleOf (fun target => upToDepth_walk catalog bound levels target more)
    d).mono fun _ _ => congrArg (unflagged e)

/-- The rule of a declaration that has a descriptor. -/
theorem fieldRule_eq (descend : String → Target → Traced Rule) {v : Value} {d : Descriptor}
    (read : descriptorOf v = .ok d) (path : String) :
    fieldRule descend path v = (ruleOf (descend path) d).outcome := by
  rw [fieldRule, read]
  rfl

/-- Two arrays of the same options agree as soon as their elements do. -/
theorem agreeAt_array (inside : e = true) {v w : Value} (leaf : isBlock v = false) (leaf' : isBlock w = false)
    {options : Fields Value} {c c' : Descriptor}
    (read : descriptorOf v = .ok { kind := .str SchemaKind.array.text, options := .object options,
                                   caster := some c })
    (read' : descriptorOf w = .ok { kind := .str SchemaKind.array.text, options := .object options,
                                    caster := some c' })
    (agree : AgreeElements catalog bound c' c) : AgreeAt catalog bound e w v := by
  cases inside
  intro levels levels' descend descend' path path' below below' more
  obtain ⟨depth, at', walks⟩ := below path
  obtain ⟨depth', at'', walks'⟩ := below' path'
  rw [grownAt_of_leaf _ leaf', grownAt_of_leaf _ leaf, fieldRule_eq _ read', fieldRule_eq _ read,
    walks, walks', outcome_ruleOf_array, outcome_ruleOf_array]
  exact (agree levels levels' depth depth' at' at'' more).map fun r s same =>
    congrArg (fun r => Rule.mk _ (some r) none) same

/-- A document embedded in place of a nested block. -/
theorem agreeAt_embedded {fs gs : List (String × Value)} {r : SourceRef}
    (block : isBlock (.object fs) = true) (document : Document.isDocument r = true)
    (lists : Lists catalog (.value (.source r)) gs) (filled : gs ≠ [])
    (agree : AgreeFields catalog bound e gs fs) : AgreeAt catalog bound e (.source r) (.object fs) := by
  intro levels levels' descend descend' path path' below below' more
  obtain ⟨depth, at', walks⟩ := below path
  obtain ⟨paths, entries, declared, tidy⟩ := lists
  have read : descriptorOf (.source r) =
      .ok { kind := .str SchemaKind.embedded.text, options := .object [],
            schema := some (.source r) } := if_pos document
  rw [grownAt_of_leaf _ rfl, grownAt_block _ block, fieldRule_eq _ read, walks,
    outcome_ruleOf_embedded]
  -- The document takes a level of its own, the block in its place does not.
  cases levels with
  | zero => exact .tooDeep bound _ _
  | succ levels =>
    have again (x : Except Failure (Fields Rule)) :
        (x.map holder).map (fun sub => ⟨fieldFacets .object [], none, sub.children⟩) =
          x.map fun ks => (⟨fieldFacets .object [], none, some ks⟩ : Rule) := by
      cases x <;> rfl
    rw [outcome_walk bound depth at' levels entries declared tidy, again]
    have deeper : Levelled catalog bound levels fun name =>
        walk catalog bound (depth + 1) (at' ++ name ++ ".") levels := fun _ => ⟨_, _, rfl⟩
    have inside := agree levels levels' _ descend' "" path' deeper below' (Nat.le_of_succ_le more)
    refine (inside.imp fun ks js done _ same => ?_).map fun ks js
      (same : ks ≠ [] ∧ SameKids e ks js) => unflagged_embedded same.1 same.2
    have keys := (keys_grown _ done).symm
    exact ⟨fun none => filled (List.map_eq_nil_iff.1 (keys.trans (congrArg Fields.keys none))), same⟩

/-- Elements that are arrays: nothing is said of what is in them. -/
theorem agreeElements_array {options : Fields Value} {caster caster' : Option Descriptor} :
    AgreeElements catalog bound
      { kind := .str SchemaKind.array.text, options := .object options, caster := caster' }
      { kind := .str SchemaKind.array.text, options := .object options, caster := caster } := by
  intro levels levels' depth depth' path path' more
  rw [outcome_itemsRule_array, outcome_itemsRule_array]
  exact .done rfl

/-- Elements that are documents or blocks of paths, with definitions that agree. -/
theorem agreeElements_embedded (inside : e = true) {c c' : Descriptor} {target target' : Target}
    {fs gs : List (String × Value)} (embeds : Embeds c target) (lists : Lists catalog target fs)
    (embeds' : Embeds c' target') (lists' : Lists catalog target' gs)
    (agree : AgreeFields catalog bound e gs fs) : AgreeElements catalog bound c' c := by
  cases inside
  intro levels levels' depth depth' path path' more
  rw [outcome_itemsRule_embedded _ embeds, outcome_itemsRule_embedded _ embeds']
  refine (agree_walk agree lists lists' more depth depth' path path').map ?_
  rintro t u ⟨ks, js, rfl, rfl, same⟩
  exact unflagged_holder same

mutual

/-- **The step along a redeclaration**: what is declared at a key has the same rule but for flags. -/
theorem Redeclared.agreeAt {v w : Value} (again : Redeclared catalog e v w) (tidy : Tidy v)
    (read : Read (placedAt v)) (read' : Read (placedAt w)) : AgreeAt catalog bound e w v := by
  match again with
  | .same leaf => exact agreeAt_of_leaf leaf
  | .kept block block' fields =>
    rw [Document.placedAt_block block] at read
    rw [Document.placedAt_block block'] at read'
    have agree := RedeclaredFields.agree fields ((Document.tidy_block block).1 tidy).2 read read'
    intro levels levels' descend descend' path path' below below' more
    rw [grownAt_block _ block, grownAt_block _ block']
    exact (agree levels levels' descend descend' path path' below below' more).map
      fun _ _ => unflagged_holder
  | .embedded block made fields =>
    obtain ⟨filled, deep⟩ := (Document.tidy_block block).1 tidy
    rw [Document.placedAt_block block] at read
    have lists := lists_document made (fields.tidy deep)
    exact agreeAt_embedded block made.document lists (fields.ne_nil filled)
      (RedeclaredFields.agree fields deep read lists.read)
  | .list vs ws inside element =>
    have array : ∃ d, Document.describe false [] (.list (_ :: vs)) = .ok d := read.of_leaf rfl
    have array' : ∃ d, Document.describe false [] (.list (_ :: ws)) = .ok d := read'.of_leaf rfl
    obtain ⟨d, array⟩ := array
    obtain ⟨d', array'⟩ := array'
    obtain ⟨c, here, rfl⟩ := Document.describe_list array
    obtain ⟨c', here', rfl⟩ := Document.describe_list array'
    exact agreeAt_array inside rfl rfl array array'
      (Redeclared.agreeElements inside element tidy here here')
  | .typed vs ws inside first element =>
    obtain ⟨d, read⟩ := read.of_leaf (Document.isBlock_typed _)
    obtain ⟨d', read'⟩ := read'.of_leaf (Document.isBlock_typed _)
    have array := (Document.descriptorOf_typed _ first).symm.trans read
    have array' := (Document.descriptorOf_typed _ first).symm.trans read'
    obtain ⟨c, here, rfl⟩ := Document.describe_list array
    obtain ⟨c', here', rfl⟩ := Document.describe_list array'
    have tidy : Tidy (.list (_ :: vs)) := (Document.tidy_typed _ first).1 tidy
    exact agreeAt_array inside (Document.isBlock_typed _) (Document.isBlock_typed _) read read'
      (Redeclared.agreeElements inside element tidy here here')

/-- **The same of all fields**, by induction on the redeclaration. -/
theorem RedeclaredFields.agree {fs gs : List (String × Value)}
    (fields : RedeclaredFields catalog e fs gs) (tidy : TidyFields fs) (read : Read (placed fs))
    (read' : Read (placed gs)) : AgreeFields catalog bound e gs fs := by
  match fields with
  | .nil => exact fun _ _ _ _ _ _ _ _ _ => .done rfl
  | .cons here later =>
    obtain ⟨-, -, first, rest⟩ := tidy
    obtain ⟨own, others⟩ := (Document.read_placed_cons _ _ _).1 read
    obtain ⟨own', others'⟩ := (Document.read_placed_cons _ _ _).1 read'
    have head := Redeclared.agreeAt here first own own'
    have tail := RedeclaredFields.agree later rest others others'
    intro levels levels' descend descend' path path' below below' more
    rw [grown, grown]
    refine (head levels levels' descend descend' _ _ below below' more).bind fun r s same => ?_
    refine (tail levels levels' descend descend' path path' below below' more).bind
      fun ks js others => .done ?_
    rw [SameKids, Fields.mapValues_cons, Fields.mapValues_cons, same, others]

/-- What the elements of arrays are, the first of which is declared again. -/
theorem Redeclared.agreeElements (inside : e = true) {v w : Value}
    (again : Redeclared catalog e v w) (tidy : Tidy v) {c c' : Descriptor}
    (read : Document.describe true [] v = .ok c) (read' : Document.describe true [] w = .ok c') :
    AgreeElements catalog bound c' c := by
  match again with
  | .same leaf =>
    obtain rfl : c = c' := Except.ok.inj (read.symm.trans read')
    intro levels levels' depth depth' path path' more
    exact (upToDepth_itemsRule (fun target => upToDepth_walk catalog bound levels target more)
      c).mono fun _ _ => congrArg (unflagged true)
  | .kept block block' fields =>
    obtain ⟨-, deep⟩ := (Document.tidy_block block).1 tidy
    obtain ⟨paths, declared, rfl⟩ := Document.describe_block block read
    obtain ⟨paths', declared', rfl⟩ := Document.describe_block block' read'
    have lists : Lists catalog (.block paths) _ := ⟨paths, rfl, declared, deep⟩
    have lists' : Lists catalog (.block paths') _ := ⟨paths', rfl, declared', fields.tidy deep⟩
    exact agreeElements_embedded inside ⟨rfl, rfl, rfl⟩ lists ⟨rfl, rfl, rfl⟩ lists'
      (RedeclaredFields.agree fields deep lists.read lists'.read)
  | .embedded block made fields =>
    obtain ⟨-, deep⟩ := (Document.tidy_block block).1 tidy
    obtain ⟨paths, declared, rfl⟩ := Document.describe_block block read
    obtain rfl := Except.ok.inj (read'.symm.trans (if_pos made.document))
    have lists : Lists catalog (.block paths) _ := ⟨paths, rfl, declared, deep⟩
    have lists' := lists_document made (fields.tidy deep)
    exact agreeElements_embedded inside ⟨rfl, rfl, rfl⟩ lists ⟨rfl, rfl, rfl⟩ lists'
      (RedeclaredFields.agree fields deep lists.read lists'.read)
  -- Elements that are arrays have no rule of their elements, so what is in these cannot matter.
  | .list .. =>
    obtain ⟨_, _, rfl⟩ := Document.describe_list read
    obtain ⟨_, _, rfl⟩ := Document.describe_list read'
    exact agreeElements_array
  | .typed _ _ _ first _ =>
    rw [Document.describe_typed _ first] at read read'
    obtain ⟨_, _, rfl⟩ := Document.describe_list read
    obtain ⟨_, _, rfl⟩ := Document.describe_list read'
    exact agreeElements_array

end

/-- **Trees of redeclared documents** are the same but for the flags of objects that hold others. -/
theorem agree_introspect {fs gs : List (String × Value)} {r s : SourceRef}
    (made : Document.MadeOf catalog r fs) (made' : Document.MadeOf catalog s gs)
    (again : RedeclaredFields catalog e fs gs) (tidy : TidyFields fs)
    (shallow : ∀ limit path, (introspect catalog bound (.source s)).outcome ≠
      .error (.tooDeep limit path)) :
    Wire.SameOutcome (fun t u => SameKids e t.kids u.kids)
      (introspect catalog bound (.source r)).outcome
      (introspect catalog bound (.source s)).outcome := by
  have lists := lists_document made tidy
  have lists' := lists_document made' (again.tidy tidy)
  have agree : AgreeFields catalog bound e gs fs :=
    RedeclaredFields.agree again tidy lists.read lists'.read
  have related := agree_walk agree lists lists' (Nat.le_refl (bound + 1).toNat) 0 0 "" ""
  unfold introspect at shallow ⊢
  revert related shallow
  generalize (walk catalog bound 0 "" (bound + 1).toNat (.value (.source r))).outcome = x
  generalize (walk catalog bound 0 "" (bound + 1).toNat (.value (.source s))).outcome = y
  rintro shallow related
  -- If any tree is too deep it is the second: documents that are embedded take further levels.
  cases related with
  | tooDeep limit path => exact absurd rfl (shallow limit path)
  | failed e => exact .failed e
  | done related =>
    obtain ⟨ks, js, rfl, rfl, same⟩ := related
    exact .done _ _ same.symm

/-- **Two ways to declare a shape.** A document with nested blocks, and one that embeds documents in
their place, if it is not too deep: whatever overrides adapt their trees with, the results differ at
most inside the elements of arrays, in whether an object that holds others says `false` of being
required or says nothing; without documents embedded there they are the same. A fresh registry gives
both the same wire document for all overrides and options. -/
theorem redeclared_alike {fs gs : List (String × Value)} {r s : SourceRef}
    (made : Document.MadeOf catalog r fs) (made' : Document.MadeOf catalog s gs)
    (again : RedeclaredFields catalog elements fs gs) (tidy : TidyFields fs)
    (shallow : ∀ limit path, (introspect catalog bound (.source s)).outcome ≠
      .error (.tooDeep limit path)) :
    (∀ o : Overrides,
      Wire.SameOutcome
        (fun t u => t.elementwise elements = u.elementwise elements ∧ (elements = false → t = u))
        ((introspect catalog bound (.source r)).outcome >>= o.apply)
        ((introspect catalog bound (.source s)).outcome >>= o.apply)) ∧
      ∀ (handle handle' : Nat) (watchable watchable' : Bool) (overrides options : Value),
        Registry.emitted ⟨catalog, .ok bound⟩ {}
            ⟨some ⟨handle, watchable, .source r⟩, overrides, options⟩ =
          Registry.emitted ⟨catalog, .ok bound⟩ {}
            ⟨some ⟨handle', watchable', .source s⟩, overrides, options⟩ := by
  have trees := agree_introspect made made' again tidy shallow
  have adapted (o : Overrides) := trees.bind fun t u same => Overrides.apply_unflagged (o := o) same
  constructor
  · refine fun o => (adapted o).mono fun t u same => ⟨same, fun whole => ?_⟩
    subst whole
    rwa [Rule.elementwise_false, Rule.elementwise_false] at same
  · intro handle handle' watchable watchable' overrides options
    let env : Environment := ⟨catalog, .ok bound⟩
    have document (x : Except Failure Rule) (o : Overrides) (allow : Bool) :
        (x >>= fun tree => o.apply tree >>= fun effective => pure (Wire.ofTree allow effective)) =
          (x >>= o.apply).map (Wire.ofTree allow) := by
      cases x with
      | error e => rfl
      | ok tree => cases o.apply tree <;> rfl
    have derived (o : Overrides) (allow : Bool) :
        env.derive (some ⟨handle, watchable, .source r⟩) o allow =
          env.derive (some ⟨handle', watchable', .source s⟩) o allow := by
      have same := (adapted o).map_eq fun t u same => Wire.ofTree_eq_of_elementwise allow same
      exact (document _ o allow).trans (same.trans (document _ o allow).symm)
    -- With nothing kept a request is answered by what it derives.
    rw [Requests.emitted_fresh, Requests.emitted_fresh]
    exact congrArg (fun derive => Overrides.ofValue overrides >>= fun o =>
      ValidatorOptions.ofValue options >>= fun opts => o.key opts >>= fun _ =>
        derive o opts.allowUnknown) (funext fun o => funext (derived o))

def labelFields : List (String × Value) := [("text", .native .text)]

def tagFields : List (String × Value) := [("label", .source ⟨0, "DocumentSchema", "Label"⟩)]

/-- A post with tags that have labels, all in nested blocks. -/
def postBlocks : List (String × Value) :=
  [("tags", .list [.object [("label", .object labelFields)]])]

/-- The same post with documents for tags and labels. -/
def postDocuments : List (String × Value) := [("tags", .list [.source ⟨1, "DocumentSchema", "Tag"⟩])]

def postCatalog : Catalog :=
  [labelFields, tagFields, postBlocks, postDocuments].map fun fs =>
    .document .null (Document.ofDefinition (.object fs)).1

def blockPost : SourceRef := ⟨2, "DocumentSchema", "Post"⟩

def documentPost : SourceRef := ⟨3, "DocumentSchema", "Post"⟩

theorem made_blockPost : Document.MadeOf postCatalog blockPost postBlocks := ⟨rfl, _, _, rfl, rfl⟩

theorem made_documentPost : Document.MadeOf postCatalog documentPost postDocuments :=
  ⟨rfl, _, _, rfl, rfl⟩

/-- The two declarations of a post: one has a block for the element of its tags, the other the class
made of that block. -/
theorem redeclared_post : RedeclaredFields postCatalog true postBlocks postDocuments := by
  have label : Document.MadeOf postCatalog ⟨0, "DocumentSchema", "Label"⟩ labelFields :=
    ⟨rfl, _, _, rfl, rfl⟩
  have tag : Document.MadeOf postCatalog ⟨1, "DocumentSchema", "Tag"⟩ tagFields :=
    ⟨rfl, _, _, rfl, rfl⟩
  have text : RedeclaredFields postCatalog true labelFields labelFields := .cons (.same rfl) .nil
  exact .cons (.list _ _ rfl (.embedded rfl tag (.cons (.embedded rfl label text) .nil))) .nil

theorem tidy_post : TidyFields postBlocks := by
  have segments : IsSegment "tags" ∧ IsSegment "label" ∧ IsSegment "text" := by decide +kernel
  simpa [postBlocks, labelFields, TidyFields, Tidy, Fields.keys, Fields.contains] using segments

/-- The tree of a post with this rule of labels. -/
def postTree (label : Rule) : Rule :=
  holder [("tags", ⟨fieldFacets .array [], some (holder [("label", label)]), none⟩)]

theorem outcome_documentPost : (introspect postCatalog 2 (.source documentPost)).outcome =
    .ok (postTree ⟨fieldFacets .object [], none, some [("text", ⟨fieldFacets .string [], none, none⟩)]⟩) :=
  rfl

theorem redeclared_alike_post :
    Wire.SameOutcome (fun t u => t.elementwise true = u.elementwise true ∧ (true = false → t = u))
        ((introspect postCatalog 2 (.source blockPost)).outcome >>= Overrides.apply {})
        ((introspect postCatalog 2 (.source documentPost)).outcome >>= Overrides.apply {}) ∧
      Registry.emitted ⟨postCatalog, .ok 2⟩ {} ⟨some ⟨1, true, .source blockPost⟩, .null, .null⟩ =
        Registry.emitted ⟨postCatalog, .ok 2⟩ {}
          ⟨some ⟨2, true, .source documentPost⟩, .null, .null⟩ := by
  have shallow : ∀ limit path, (introspect postCatalog 2 (.source documentPost)).outcome ≠
      .error (.tooDeep limit path) := by
    rw [outcome_documentPost]
    exact fun _ _ => nofun
  have alike := redeclared_alike made_blockPost made_documentPost redeclared_post tidy_post shallow
  exact ⟨alike.1 {}, alike.2 1 2 true true .null .null⟩

/-- **Elements tell how a block was declared**: in the tags of the adapted posts the labels differ. -/
theorem elements_tell_blocks :
    Document.MadeOf postCatalog blockPost postBlocks ∧
      Document.MadeOf postCatalog documentPost postDocuments ∧
      RedeclaredFields postCatalog true postBlocks postDocuments ∧ TidyFields postBlocks ∧
      ∃ t u, ((introspect postCatalog 2 (.source blockPost)).outcome >>= Overrides.apply {}) = .ok t ∧
        ((introspect postCatalog 2 (.source documentPost)).outcome >>= Overrides.apply {}) = .ok u ∧
        t ≠ u := by
  let text : Fields Rule := [("text", ⟨fieldFacets .string [], none, none⟩)]
  refine ⟨made_blockPost, made_documentPost, redeclared_post, tidy_post, postTree (holder text),
    postTree ⟨fieldFacets .object [], none, some text⟩, rfl, rfl, ?_⟩
  intro same
  have flag := congrArg (fun t => t.kids.map fun e => e.2.items.map fun element =>
    element.kids.map fun label => label.2.facets.required) same
  cases flag

end Introspection

end ShapeContract
