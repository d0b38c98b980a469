import ShapeContract.Proofs.Introspection.Lifted
import ShapeContract.Proofs.Introspection.Visit
import ShapeContract.Proofs.Overrides.Selection
import ShapeContract.Proofs.Registry.Transparency
import ShapeContract.Proofs.Rule.Dotless
import ShapeContract.Proofs.Rule.Gathered
import ShapeContract.Proofs.Wire.Documents

/-!
# Tables on the wire

The wire document of a table has a property for each column, in order, with the keywords of the type
family of the column and with its default if that is a plain value. A length of zero and an
enumeration without values are not passed on; all other types have the whole shape of their family.
-/

set_option autoImplicit false

namespace ShapeContract

open Introspection (elementFacets fieldFacets childrenOf itemsOf option? boundOf IsPattern Target)

/-! ## Classes and families -/

namespace TypeClass

/-- The class at the root of a line of classes. -/
def root : TypeClass → TypeClass
  | .enum => .string
  | .dateTime => .date
  | k => k

/-- The family of the types that a class is the lowest of. -/
def family (length : Option Nat) (stored : List String) : TypeClass → ColumnType
  | .enum => .choice stored
  | .uuid => .uuid
  | .string => .text length
  | .boolean => .boolean
  | .integer => .integer
  | .numeric => .numeric
  | .dateTime | .date => .date
  | .binary => .binary
  | .json => .json

end TypeClass

namespace SqlType

/-- Classes of one line, as an instance of one type has them. -/
def Lineal (classes : List TypeClass) : Prop := ∀ a ∈ classes, ∀ b ∈ classes, a.root = b.root

/-- Whichever class is asked for first, a type has the family of its class; a type of texts is one
unless it is an enumeration. -/
theorem family_plain {classes : List TypeClass} (lineal : Lineal classes) {k : TypeClass}
    (inside : k ∈ classes) (lowest : k = .string → .enum ∉ classes) (length : Option Nat)
    (stored : List String) : (plain classes length stored).family = k.family length stored := by
  have apart : ∀ c : TypeClass, c.root ≠ k.root → c ∉ classes := fun c differ among =>
    differ (lineal c among k inside)
  cases k <;> simp_all [family, TypeClass.family, TypeClass.root]

/-- Either branch has classes of one line. -/
theorem lineal_ite {p : Prop} [Decidable p] {as bs : List TypeClass} (yes : Lineal as)
    (no : Lineal bs) : Lineal (if p then as else bs) := by
  split
  · exact yes
  · exact no

/-- The types that have a name have classes of one line. -/
theorem lineal_classesOf (floatsAreNumeric : Bool) (name : String) :
    Lineal (classesOf floatsAreNumeric name) := by
  have none : Lineal [] := nofun
  have one (k : TypeClass) : Lineal [k] := by simp [Lineal]
  have two : Lineal [.enum, .string] := by simp [Lineal, TypeClass.root]
  unfold classesOf
  repeat' apply lineal_ite
  all_goals first | exact one _ | exact none | exact two

/-- Where floats are instances of the class of numerics, a column of them is one of numbers. -/
example : (named true "Float" none []).family = .numeric := rfl

end SqlType

namespace ColumnType

/-- The keywords of a type family; those of an array are about its elements. -/
def keywords (element : Value) : ColumnType → Fields Value
  | .integer | .numeric => [("type", .str "number")]
  | .text none => [("type", .str "string")]
  | .text (some n) => [("type", .str "string"), ("maxLength", .int n)]
  | .choice stored => [("type", .str "string"), ("enum", .list (stored.map .str))]
  | .uuid => [("type", .str "string"), ("pattern", .str Column.uuidPattern)]
  | .boolean => [("type", .str "boolean")]
  | .date => [("type", .str "string"), ("format", .str "date-time")]
  | .array _ => [("type", .str "array"), ("items", element)]
  | .json | .binary | .other => []

/-- The document of the elements of an array; those of an array in an array are left open. -/
def element : ColumnType → Value
  | .array of => .object (keywords (.object []) of)
  | _ => .object []

/-- The shape that a type family has on the wire. -/
def shape (t : ColumnType) : Fields Value := keywords t.element t

/-- What a descriptor tells of a type: neither a length of zero nor that there is no value to choose. -/
def told : ColumnType → ColumnType
  | .text (some 0) => .text none
  | .choice [] => .text none
  | .array of => .array (told of)
  | t => t

/-- A length of zero, or an enumeration without values. -/
def IsVoid (t : ColumnType) : Prop := t = .text (some 0) ∨ t = .choice []

/-- A type is told in full unless it has a length of zero or no values. -/
theorem keywords_told_iff {t : ColumnType} (element : Value) :
    keywords element t.told = keywords element t ↔ ¬ t.IsVoid := by
  constructor
  · rintro same (rfl | rfl) <;> simp [told, keywords] at same
  · intro plain
    unfold told
    split
    next => exact absurd (.inl rfl) plain
    next => exact absurd (.inr rfl) plain
    next => rfl
    next => rfl

/-- A type that is no array has no elements to tell of. -/
theorem element_of_flat {t : ColumnType} (flat : ∀ of, t ≠ .array of) : t.element = .object [] := by
  cases t with
  | array of => exact absurd rfl (flat of)
  | _ => rfl

theorem told_flat {t : ColumnType} (flat : ∀ of, t ≠ .array of) (of : ColumnType) :
    t.told ≠ .array of := by
  unfold told
  split
  next => simp
  next => simp
  next inner => exact absurd rfl (flat inner)
  next => exact flat of

/-- The shape of a type comes through exactly if neither it nor the type of its elements is void. -/
theorem shape_told_iff {t : ColumnType} :
    t.told.shape = t.shape ↔ ¬ (t.IsVoid ∨ ∃ of, t = .array of ∧ of.IsVoid) := by
  by_cases array : ∃ of, t = .array of
  · obtain ⟨of, rfl⟩ := array
    have told : (ColumnType.array of).told = .array of.told := rfl
    have shape (of : ColumnType) : (ColumnType.array of).shape =
        [("type", .str "array"), ("items", .object (keywords (.object []) of))] := rfl
    have whole : ¬ (ColumnType.array of).IsVoid := by simp [IsVoid]
    rw [told, shape, shape]
    simp [whole, keywords_told_iff]
  · have flat : ∀ of, t ≠ .array of := not_exists.1 array
    rw [shape, shape, element_of_flat flat, element_of_flat (told_flat flat), keywords_told_iff]
    simp [flat]

end ColumnType

/-! ## Descriptors of columns -/

namespace Column

/-- The value that a column has if none is given. -/
def scalar? (c : Column) : Option Value :=
  match c.default with
  | some (.scalar v) => some v
  | _ => none

/-- The document of a column, with the keywords of its type. -/
def property (shape : ColumnType → Fields Value) (c : Column) : Value :=
  .object (shape c.family ++ Rule.entry "default" c.scalar?)

/-- A column without constraints of its own; a default that can be called is computed. -/
structure IsPlain (c : Column) : Prop where
  unconstrained : c.constraints = none
  scalar : ∀ v, c.scalar? = some v → v.isCallable = false

/-- The descriptor of a type is one that a declaration could make. -/
theorem made_typeDescriptor (t : ColumnType) : (typeDescriptor t).Made := by
  induction t with
  | array of made => exact .array _ made
  | text length => cases length <;> exact .plain _ _
  | _ => exact .plain _ _

/-- The pattern of a type, if it has one, is a text. -/
theorem isPattern_typeDescriptor {t : ColumnType} {v : Value}
    (given : option? (typeDescriptor t).opts "match" = some v) : IsPattern v := by
  cases t with
  | uuid =>
    cases given
    exact .text rfl
  | text length =>
    cases length with
    | none => cases given
    | some n => cases n <;> cases given
  | _ => cases given

/-- A type sets nothing but the keywords of texts. -/
theorem get?_typeDescriptor (t : ColumnType) :
    ∀ name ∈ ["required", "default", "min", "max", "minItems", "maxItems"],
      (typeDescriptor t).opts.get? name = none := by
  simp only [List.forall_mem_cons]
  cases t with
  | text length =>
    cases length with
    | none => exact ⟨rfl, rfl, rfl, rfl, rfl, rfl, nofun⟩
    | some n => cases n <;> exact ⟨rfl, rfl, rfl, rfl, rfl, rfl, nofun⟩
  | _ => exact ⟨rfl, rfl, rfl, rfl, rfl, rfl, nofun⟩

variable {c : Column}

/-- The options of a column that is not constrained further. -/
def options (c : Column) : Fields Value :=
  let flagged := (typeDescriptor c.family).opts.put "required" (.bool c.required)
  match c.scalar? with
  | some v => flagged.put "default" v
  | none => flagged

def described (c : Column) : Descriptor :=
  { typeDescriptor c.family with options := .object c.options }

/-- A column without constraints has a descriptor. -/
theorem descriptor_eq (plain : c.IsPlain) : c.descriptor = .ok c.described := by
  rw [descriptor, plain.unconstrained, described, options, scalar?]
  cases c.default with
  | none => rfl
  | some d => cases d <;> rfl

/-- Beside the flag and the default the options of a column are those of its type. -/
theorem get?_options_of_ne {name : String} (flag : name ≠ "required") (default : name ≠ "default") :
    c.options.get? name = (typeDescriptor c.family).opts.get? name := by
  unfold options
  cases c.scalar? with
  | none => exact Fields.get?_put_of_ne _ _ flag
  | some v => rw [Fields.get?_put_of_ne _ _ default, Fields.get?_put_of_ne _ _ flag]

/-- The flag says whether the column is required. -/
theorem get?_options_required : c.options.get? "required" = some (.bool c.required) := by
  unfold options
  cases c.scalar? with
  | none => exact Fields.get?_put_self _ _ _
  | some v => rw [Fields.get?_put_of_ne _ _ (by decide), Fields.get?_put_self]

/-- The default is that of the column, if it is a plain value. -/
theorem get?_options_default : c.options.get? "default" = c.scalar? := by
  unfold options
  cases c.scalar? with
  | none =>
    rw [Fields.get?_put_of_ne _ _ (by decide)]
    exact get?_typeDescriptor c.family "default" (by simp)
  | some v => exact Fields.get?_put_self _ _ _

/-! ## Rules of columns -/

/-- The rule of the elements that a type has. -/
def elementRule : ColumnType → Option Rule
  | .array of => some ⟨elementFacets (typeDescriptor of).type (typeDescriptor of).opts, none, none⟩
  | _ => none

/-- The rule of a column: what its type says, whether it is required, and its default. -/
def rule (c : Column) : Rule :=
  ⟨{ elementFacets (typeDescriptor c.family).type (typeDescriptor c.family).opts with
      required := some (.bool c.required)
      default := c.scalar? }, elementRule c.family, none⟩

/-- The facets of a column: those of its type, the flag and the default. -/
theorem fieldFacets_options (plain : c.IsPlain) (type : PrimitiveType) :
    fieldFacets type c.options =
      { elementFacets type (typeDescriptor c.family).opts with
        required := some (.bool c.required)
        default := c.scalar? } := by
  have silent := get?_typeDescriptor c.family
  simp only [List.forall_mem_cons] at silent
  obtain ⟨-, -, low, high, few, many, -⟩ := silent
  have unbounded : boundOf type none = none := by cases type <;> rfl
  have default : c.scalar?.filter (fun v => !v.isCallable) = c.scalar? := by
    cases given : c.scalar? with
    | none => rfl
    | some v => simp [plain.scalar v given]
  have truth : (Value.bool c.required).truthy = c.required := rfl
  simp [fieldFacets, elementFacets, option?, get?_options_of_ne, get?_options_required,
    get?_options_default, low, high, few, many, unbounded, default, truth]

/-- The descriptor of a column is one that a declaration could make. -/
theorem made_described (c : Column) : c.described.Made := by
  have made := made_typeDescriptor c.family
  unfold described
  generalize typeDescriptor c.family = d at made
  cases made with
  | plain tag => exact .plain tag c.options
  | array _ made => exact .array c.options made
  | embedded _ r => exact .embedded c.options r
  | block _ own made => exact .block c.options own made

/-- Only arrays have a descriptor of their elements. -/
theorem caster_typeDescriptor {t : ColumnType} {d : Descriptor}
    (element : (typeDescriptor t).caster = some d) : ∃ of, t = .array of ∧ typeDescriptor of = d := by
  cases t with
  | array of => exact ⟨of, rfl, Option.some.inj element⟩
  | text length => cases length <;> cases element
  | _ => cases element

/-- The options of a column are well-formed. -/
theorem wellFormed_described (c : Column) : c.described.WellFormed where
  pattern _ v given := by
    have named : option? c.options "match" = some v := given
    rw [option?, get?_options_of_ne (by decide) (by decide)] at named
    exact isPattern_typeDescriptor named
  bounds _ name inside v given := by
    have named : option? c.options name = some v := given
    have other : name ≠ "required" ∧ name ≠ "default" := by
      constructor <;> rintro rfl <;> simp at inside
    have silent := get?_typeDescriptor c.family name (by simp at inside ⊢; tauto)
    rw [option?, get?_options_of_ne other.1 other.2, silent] at named
    cases named
  element d element _ v given := by
    obtain ⟨of, -, rfl⟩ := caster_typeDescriptor element
    exact isPattern_typeDescriptor given

variable {descend : Target → Traced Rule}

/-- No column has children. -/
theorem childrenOf_typeDescriptor (t : ColumnType) :
    childrenOf descend (typeDescriptor t) = .ok none := by
  cases t with
  | text length => cases length <;> rfl
  | _ => rfl

/-- The element rule of a column is that of its type. -/
theorem itemsOf_typeDescriptor (t : ColumnType) :
    itemsOf descend (typeDescriptor t) = .ok (elementRule t) := by
  cases t with
  | array of =>
    have caster : (typeDescriptor (.array of)).caster = some (typeDescriptor of) := rfl
    rw [itemsOf, caster]
    dsimp only
    rw [childrenOf_typeDescriptor]
    rfl
  | text length => cases length <;> rfl
  | _ => rfl

/-- The rule of a column is read whatever is below its table. -/
theorem outcome_ruleOf_described (plain : c.IsPlain) :
    (Introspection.ruleOf descend c.described).outcome = .ok c.rule := by
  have children : childrenOf descend c.described = .ok none := childrenOf_typeDescriptor c.family
  have items : itemsOf descend c.described = .ok (elementRule c.family) := itemsOf_typeDescriptor c.family
  rw [Introspection.outcome_ruleOf (made_described c) (wellFormed_described c), items, children]
  change Except.ok (Rule.mk (fieldFacets _ c.options) _ _) = _
  rw [fieldFacets_options plain]
  rfl

/-! ## Documents of columns -/

/-- The type of a column and its elements, with whatever else its rule says of it. -/
theorem ofRule_typeDescriptor (allowUnknown : Bool) (t : ColumnType) (required default : Option Value)
    (items : Option Rule) :
    Wire.ofRule allowUnknown
        ⟨{ elementFacets (typeDescriptor t).type (typeDescriptor t).opts with
            required := required
            default := default }, items, none⟩ =
      .object (t.told.keywords (Wire.ofItems allowUnknown items) ++ Rule.entry "default" default) := by
  cases t with
  | text length =>
    cases length with
    | none => rfl
    | some n => cases n <;> rfl
  | choice stored => cases stored <;> rfl
  | array of => rfl
  | _ => rfl

/-- The document of the elements is what the type tells of them. -/
theorem ofItems_elementRule (allowUnknown : Bool) (t : ColumnType) :
    Wire.ofItems allowUnknown (elementRule t) = t.told.element := by
  by_cases array : ∃ of, t = .array of
  · obtain ⟨of, rfl⟩ := array
    refine (ofRule_typeDescriptor allowUnknown of none none none).trans ?_
    exact congrArg Value.object (List.append_nil _)
  · have flat : ∀ of, t ≠ .array of := not_exists.1 array
    have none : elementRule t = none := by
      cases t with
      | array of => exact absurd rfl (flat of)
      | _ => rfl
    rw [none, ColumnType.element_of_flat (ColumnType.told_flat flat)]
    rfl

/-- The document of a column has the shape that its type tells, and its default. -/
theorem ofRule_rule (allowUnknown : Bool) (c : Column) :
    Wire.ofRule allowUnknown c.rule = c.property fun t => t.told.shape := by
  refine (ofRule_typeDescriptor allowUnknown c.family _ _ _).trans ?_
  rw [ofItems_elementRule]
  rfl

/-! ## Tables -/

variable {columns : List Column}

/-- Columns with keys of their own that are no paths, without constraints beside their types. -/
structure ArePlain (columns : List Column) : Prop where
  own : (columns.map Column.key).Nodup
  named : ∀ c ∈ columns, IsSegment c.key
  plain : ∀ c ∈ columns, c.IsPlain

/-- The rules of columns under their keys. -/
def rules (columns : List Column) : Fields Rule := columns.map fun c => (c.key, c.rule)

/-- The rule tree of a table. -/
def tree (columns : List Column) : Rule := ⟨Rule.empty.facets, none, some (rules columns)⟩

/-- The rules of a table have the keys of its columns, in order. -/
theorem keys_rules : (rules columns).keys = columns.map Column.key := List.map_map

/-- The tree of a table has names of its own that are no paths. -/
theorem wellNamed_tree (plain : ArePlain columns) : (tree columns).WellNamed := by
  obtain ⟨own, named, -⟩ := plain
  show Rule.FieldsWellNamed (rules columns)
  induction columns with
  | nil => trivial
  | cons c rest ih =>
    obtain ⟨segment, others⟩ := List.forall_mem_cons.1 named
    obtain ⟨fresh, ownRest⟩ := List.nodup_cons.1 own
    have new : c.key ∉ (rules rest).keys := keys_rules ▸ fresh
    exact ⟨segment, new, trivial, ih ownRest others⟩

/-- No column has children, so nothing is lost where a tree is rebuilt. -/
theorem apply_tree (plain : ArePlain columns) :
    Overrides.apply {} (tree columns) = .ok (tree columns) := by
  have rebuilt : Rule.rebuiltFields (rules columns) = rules columns := by
    rw [Rule.rebuiltFields_eq, Fields.mapValues, rules, List.map_map]
    rfl
  rw [Overrides.apply_nothing (wellNamed_tree plain)]
  exact congrArg (fun kids => Except.ok (Rule.mk Rule.empty.facets none (some kids))) rebuilt

/-- The document of a table. -/
def document (allowUnknown : Bool) (columns : List Column) : Value :=
  .object (Wire.objectKeywords allowUnknown
    (columns.map fun c => (c.key, c.property fun t => t.told.shape))
    ((columns.filter Column.required).map fun c => .str c.key))

/-- The document of the tree of a table is that of the table. -/
theorem ofTree_tree (allowUnknown : Bool) :
    Wire.ofTree allowUnknown (tree columns) = document allowUnknown columns := by
  have properties : Wire.ofFields allowUnknown (rules columns) =
      columns.map fun c => (c.key, c.property fun t => t.told.shape) := by
    rw [Wire.ofFields_eq, Fields.mapValues, rules, List.map_map]
    simp [Function.comp_def, ofRule_rule]
  have required : Wire.requiredNames (rules columns) =
      (columns.filter Column.required).map fun c => .str c.key := by
    rw [Wire.requiredNames_eq, Wire.ownRequired, rules, List.filter_map, List.map_map, List.map_map]
    rfl
  rw [Wire.ofTree_eq, document, ← properties, ← required]
  rfl

/-- Introspection of a table gives its tree. -/
theorem outcome_introspect {catalog : Catalog} {r : SourceRef} {name : String} {bound : Int}
    (found : catalog.source? r = some (.table name columns)) (plain : ArePlain columns)
    (shallow : 0 ≤ bound) :
    (introspect catalog bound (.source r)).outcome = .ok (tree columns) := by
  obtain ⟨levels, top⟩ : ∃ levels, (bound + 1).toNat = levels + 1 := ⟨bound.toNat, by omega⟩
  let paths : Fields Descriptor := columns.map fun c => (c.key, c.described)
  have listed : Target.entries catalog (.value (.source r)) =
      .ok (paths.map fun e => (e.1, .ok e.2)) := by
    have described : (columns.map fun c => (c.key, c.descriptor)) =
        paths.map fun e => (e.1, .ok e.2) := by
      rw [List.map_map]
      exact List.map_congr_left fun c inside => by
        rw [descriptor_eq (plain.plain c inside)]
        rfl
    simp only [Target.entries, found]
    exact congrArg Except.ok described
  have each (descend : String → Target → Traced Rule) : List.Forall₂ (fun r e => r.1 = e.1 ∧
      (Introspection.ruleOf (descend e.1) e.2).outcome = .ok r.2) (rules columns) paths := by
    rw [rules, List.forall₂_map_left_iff, List.forall₂_map_right_iff, List.forall₂_same]
    exact fun c inside => ⟨rfl, outcome_ruleOf_described (plain.plain c inside)⟩
  have keys : (Fields.keys ([] ++ rules columns)).Nodup := keys_rules ▸ plain.own
  have dotless : ∀ e ∈ rules columns, '.' ∉ e.1.toList := by
    intro e inside
    obtain ⟨c, among, rfl⟩ := List.mem_map.1 inside
    exact (plain.named c among).2
  rw [introspect, top, Introspection.walk_succ, Traced.outcome_bind, Traced.outcome_lift, listed]
  refine (Introspection.outcome_visitAll 0 _ _ (each _)).trans ?_
  exact congrArg Except.ok (Rule.attachAll_dotless Rule.empty.facets none keys dotless)

end Column

section Emission

variable {catalog : Catalog} {r : SourceRef} {name : String} {columns : List Column} {bound : Int}
  {overrides options : Value} {opts : ValidatorOptions}

/-- A fresh registry emits the document of a table. -/
theorem emitted_document (found : catalog.source? r = some (.table name columns))
    (plain : Column.ArePlain columns) (shallow : 0 ≤ bound)
    (nothing : Overrides.ofValue overrides = .ok {})
    (read : ValidatorOptions.ofValue options = .ok opts) (handle : Nat) (watchable : Bool) :
    Registry.emitted ⟨catalog, .ok bound⟩ {}
        ⟨some ⟨handle, watchable, .source r⟩, overrides, options⟩ =
      .ok (Column.document opts.allowUnknown columns) := by
  have tree := Column.outcome_introspect found plain shallow
  have adapted := Column.apply_tree plain
  obtain ⟨key, made⟩ : ∃ key, Overrides.key {} opts = .ok key := ⟨_, rfl⟩
  rw [Requests.emitted_fresh, ← Column.ofTree_tree]
  simp only [Request.document, nothing, read, made, Environment.derive, Environment.tree, tree,
    adapted, bind, Except.bind, pure, Except.pure]

/-- **A table on the wire.** Without overrides the document of a table has the keys of its columns as
properties, in order, and requires those that may not be null, have no default on either side and
are no primary key. A property has the shape of what its column tells of its type, and a default
exactly if that of the column is a plain value. This is the shape of the type itself unless the type,
or that of the elements of an array, has a length of zero or no values to choose from. -/
theorem emitted_table (found : catalog.source? r = some (.table name columns))
    (plain : Column.ArePlain columns) (shallow : 0 ≤ bound)
    (nothing : Overrides.ofValue overrides = .ok {})
    (read : ValidatorOptions.ofValue options = .ok opts) (handle : Nat) (watchable : Bool) :
    ∃ properties : Fields Value,
      Registry.emitted ⟨catalog, .ok bound⟩ {}
          ⟨some ⟨handle, watchable, .source r⟩, overrides, options⟩ =
        .ok (.object (Wire.objectKeywords opts.allowUnknown properties
          ((columns.filter fun c =>
              !c.nullable && c.default.isNone && !c.serverDefault && !c.primaryKey).map
            fun c => .str c.key))) ∧
      properties.keys = columns.map Column.key ∧
      ∀ c ∈ columns,
        properties.get? c.key = some (c.property fun t => t.told.shape) ∧
        (properties.get? c.key = some (c.property ColumnType.shape) ↔
          ¬ (c.family.IsVoid ∨ ∃ of, c.family = .array of ∧ of.IsVoid)) := by
  let properties : Fields Value := columns.map fun c => (c.key, c.property fun t => t.told.shape)
  have keys : properties.keys = columns.map Column.key := List.map_map
  refine ⟨properties, emitted_document found plain shallow nothing read handle watchable, keys, ?_⟩
  intro c inside
  have there : properties.get? c.key = some (c.property fun t => t.told.shape) := by
    rw [Fields.get?_eq_some_iff (keys ▸ plain.own)]
    exact List.mem_map_of_mem inside
  refine ⟨there, ?_⟩
  rw [there, ← ColumnType.shape_told_iff]
  simp [Column.property]

end Emission

/-- The members of a club: who they are, which role each has, and what they are tagged with. -/
def memberColumns : List Column :=
  [⟨"id", .named true "Integer" none [], false, true, none, false, none⟩,
    ⟨"name", .named true "String" (some 40) [], false, false, none, false, none⟩,
    ⟨"role", .named true "Enum" none ["guest", "owner"], false, false, some (.scalar (.str "guest")),
      false, none⟩,
    ⟨"tags", .array (.named true "Text" none []), true, false, some .computed, false, none⟩]

def memberTable : SourceRef := ⟨0, "SqlAlchemySchema", "members"⟩

theorem arePlain_memberColumns : Column.ArePlain memberColumns := by
  refine ⟨by decide, by decide, ?_⟩
  simp only [memberColumns, List.forall_mem_cons, List.not_mem_nil, false_imp_iff, implies_true,
    and_true]
  refine ⟨⟨rfl, ?_⟩, ⟨rfl, ?_⟩, ⟨rfl, ?_⟩, ⟨rfl, ?_⟩⟩ <;> simp [Column.scalar?, Value.isCallable]

theorem emitted_table_members :
    Column.ArePlain memberColumns ∧ ∃ properties : Fields Value,
      Registry.emitted ⟨[.table "members" memberColumns], .ok 32⟩ {}
          ⟨some ⟨1, true, .source memberTable⟩, .null, .null⟩ =
        .ok (.object (Wire.objectKeywords false properties [.str "name"])) ∧
      properties.keys = ["id", "name", "role", "tags"] ∧
      properties.get? "role" = some (.object [("type", .str "string"),
        ("enum", .list [.str "guest", .str "owner"]), ("default", .str "guest")]) := by
  have found : Catalog.source? [.table "members" memberColumns] memberTable =
      some (.table "members" memberColumns) := rfl
  have shallow : (0 : Int) ≤ 32 := by decide
  have nothing : Overrides.ofValue .null = .ok {} := rfl
  have read : ValidatorOptions.ofValue .null = .ok {} := rfl
  obtain ⟨properties, emitted, keys, each⟩ :=
    emitted_table found arePlain_memberColumns shallow nothing read 1 true
  have role := each memberColumns[2] (List.getElem_mem _)
  exact ⟨arePlain_memberColumns, properties, emitted, keys, role.1⟩

/-- A text of length zero. -/
def emptyCode : Column :=
  ⟨"code", .named true "String" (some 0) [], true, false, none, false, none⟩

/-- The length of the column has no keyword. -/
theorem not_emitted_table_emptyCode :
    Registry.emitted ⟨[.table "codes" [emptyCode]], .ok 32⟩ {}
        ⟨some ⟨1, true, .source ⟨0, "SqlAlchemySchema", "codes"⟩⟩, .null, .null⟩ =
      .ok (.object (Wire.objectKeywords false [("code", .object [("type", .str "string")])] [])) ∧
    emptyCode.property ColumnType.shape =
      .object [("type", .str "string"), ("maxLength", .int 0)] ∧
    emptyCode.property ColumnType.shape ≠ .object [("type", .str "string")] := by
  have plain : Column.ArePlain [emptyCode] := by
    refine ⟨by decide, by decide, ?_⟩
    simp only [List.forall_mem_singleton]
    exact ⟨rfl, nofun⟩
  let codes : SourceRef := ⟨0, "SqlAlchemySchema", "codes"⟩
  have found : Catalog.source? [.table "codes" [emptyCode]] codes =
      some (.table "codes" [emptyCode]) := rfl
  have shallow : (0 : Int) ≤ 32 := by decide
  have nothing : Overrides.ofValue .null = .ok {} := rfl
  have read : ValidatorOptions.ofValue .null = .ok {} := rfl
  have whole : emptyCode.property ColumnType.shape =
      .object [("type", .str "string"), ("maxLength", .int 0)] := rfl
  refine ⟨emitted_document found plain shallow nothing read 1 true, whole, ?_⟩
  simp [whole]

end ShapeContract
