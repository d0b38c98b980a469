import ShapeContract.Introspection
import ShapeContract.Proofs.Declaration.Declared

/-!
# What introspection lifts

The rule of a declared descriptor has the type of its kind tag and the facets that its options set
for that type. With well-formed options there is always such a rule, unless an embedded schema has
none: `Introspection.outcome_ruleOf`.
-/

set_option autoImplicit false

namespace ShapeContract

namespace Introspection

/-! ## Facets by type and options -/

/-- The text of a pattern; a regular expression has that of its source. -/
def patternText : Value → Value
  | .regex source _ => .str source
  | v => v

/-- A bound of the values of a type; for dates it counts in milliseconds. -/
def boundOf (type : PrimitiveType) (bound : Option Value) : Option Value :=
  match type with
  | .number => bound
  | .date => bound.bind fun v => (epochMillis v).toOption
  | _ => none

/-- The facets that options set for elements of a type. -/
def elementFacets (type : PrimitiveType) (opts : Fields Value) : Facets :=
  { type := type
    minLength := if type = .string then option? opts "minlength" else none
    maxLength := if type = .string then option? opts "maxlength" else none
    pattern := if type = .string then (option? opts "match").map patternText else none
    enum := if type = .string then ((opts.get? "enum").filter Value.truthy).bind choices else none
    min := if type = .number then option? opts "min" else none
    max := if type = .number then option? opts "max" else none }

/-- The facets that options set for a field of a type. -/
def fieldFacets (type : PrimitiveType) (opts : Fields Value) : Facets :=
  { elementFacets type opts with
    required := some (.bool (((opts.get? "required").map Value.truthy).getD false))
    min := boundOf type (option? opts "min")
    max := boundOf type (option? opts "max")
    minItems := if type = .array then option? opts "minItems" else none
    maxItems := if type = .array then option? opts "maxItems" else none
    default := (opts.get? "default").filter fun v => !v.isCallable }

/-! ## Well-formed options -/

inductive IsPattern : Value → Prop
  | text {v : Value} (isText : v.isText = true) : IsPattern v
  | regex (source : String) (flags : RegexFlags) : IsPattern (.regex source flags)

/-- A moment in time: a number of milliseconds, a date, or the text of one. -/
inductive IsMoment : Value → Prop
  | int (i : Int) : IsMoment (.int i)
  | float (x : Double) : IsMoment (.float x)
  | date (d : Date) : IsMoment (.date d)
  | datetime (t : DateTime) : IsMoment (.datetime t)
  | text {v : Value} {s : String} {t : DateTime} (text : v.text? = some s)
    (read : Calendar.readDateTime?
      (String.ofList (s.toList.flatMap fun c => if c = 'Z' then "+00:00".toList else [c])) = some t) :
    IsMoment v

theorem patternOf_eq {v : Value} (pattern : IsPattern v) :
    Rule.patternOf v = .ok (some (patternText v)) := by
  cases pattern with
  | regex source flags => rfl
  | text isText =>
    cases v with
    | str s => rfl
    | member owner label value textual => exact if_pos isText
    | _ => cases isText

theorem epochMillis_ok {v : Value} (moment : IsMoment v) : ∃ m, epochMillis v = .ok m := by
  cases moment with
  | @text _ s t text read =>
    refine ⟨.int t.epochMillis, ?_⟩
    cases v with
    | str s =>
      cases text
      simp only [epochMillis, Value.text?_str, read]
    | member owner label value textual =>
      simp only [epochMillis, text, read]
    | _ => cases text
  | _ => exact ⟨_, rfl⟩

end Introspection

namespace Descriptor

open Introspection

def opts (d : Descriptor) : Fields Value := d.options.fields?.getD []

/-- The type of the kind tag. -/
def type (d : Descriptor) : PrimitiveType := (mapKind d.kind).toOption.getD .mixed

/-- Options that their type can have: the pattern of a text is one, and the bounds of a date are
moments. -/
structure WellFormed (d : Descriptor) : Prop where
  pattern : d.type = .string → ∀ v, option? d.opts "match" = some v → IsPattern v
  bounds : d.type = .date → ∀ name ∈ ["min", "max"], ∀ v, option? d.opts name = some v → IsMoment v
  element : ∀ c, d.caster = some c → c.type = .string → ∀ v, option? c.opts "match" = some v →
    IsPattern v

variable {d : Descriptor}

/-- A descriptor without options. -/
theorem wellFormed_of_optionless (own : d.opts = [])
    (element : ∀ c, d.caster = some c → c.opts = []) : d.WellFormed := by
  constructor
  · intro _ v found
    rw [own] at found
    cases found
  · intro _ name _ v found
    rw [own] at found
    cases found
  · intro c here _ v found
    rw [element c here] at found
    cases found

namespace Made

theorem mapKind_eq (made : d.Made) : mapKind d.kind = .ok d.type := by
  cases made <;> rfl

theorem optionsOf_eq (made : d.Made) : optionsOf d = .ok d.opts := by
  have all (fs : Fields Value) (kind : Value) (caster : Option Descriptor) (schema : Option Value)
      (block : Option (List (String × Descriptor))) :
      optionsOf ⟨kind, .object fs, caster, schema, block⟩ = .ok fs := by
    cases fs <;> rfl
  cases made <;> exact all ..

/-- Only an object has an embedded schema. -/
theorem type_of_target (made : d.Made) {target : Target} (embeds : Target.of? d = some target) :
    d.type = .object := by
  cases made with
  | plain => cases embeds
  | array => cases embeds
  | _ => rfl

/-- Only an array has elements. -/
theorem type_of_caster (made : d.Made) {c : Descriptor} (element : d.caster = some c) :
    d.type = .array ∧ c.Made := by
  cases made with
  | array options made =>
    cases element
    exact ⟨rfl, made⟩
  | _ => cases element

end Made

end Descriptor

/-! ## Rules of descriptors -/

namespace Introspection

variable {d : Descriptor} {f : Facets} {opts : Fields Value}

theorem liftString_eq (pattern : ∀ v, option? opts "match" = some v → IsPattern v) :
    liftString f opts = .ok { f with
      enum := ((opts.get? "enum").filter Value.truthy).bind choices
      pattern := (option? opts "match").map patternText
      minLength := option? opts "minlength"
      maxLength := option? opts "maxlength" } := by
  have chosen : ∀ v : Value, (if v.truthy then choices v else none) =
      ((some v).filter Value.truthy).bind choices := by
    intro v
    cases truth : v.truthy <;> simp [Option.filter, truth]
  unfold liftString
  cases found : option? opts "match" with
  | none =>
    cases opts.get? "enum" with
    | none => rfl
    | some w => rw [← chosen w]; rfl
  | some v =>
    simp only [patternOf_eq (pattern v found)]
    cases opts.get? "enum" with
    | none => rfl
    | some w => rw [← chosen w]; rfl

theorem liftDate_eq
    (bounds : ∀ name ∈ ["min", "max"], ∀ v, option? opts name = some v → IsMoment v) :
    liftDate f opts = .ok { f with
      min := boundOf .date (option? opts "min")
      max := boundOf .date (option? opts "max") } := by
  have lift : ∀ name ∈ ["min", "max"], (option? opts name).mapM epochMillis =
      .ok (boundOf .date (option? opts name)) := by
    intro name inside
    cases found : option? opts name with
    | none => rfl
    | some v =>
      obtain ⟨m, read⟩ := epochMillis_ok (bounds name inside v found)
      simp [boundOf, read, Except.toOption]
  unfold liftDate
  rw [lift "min" (by simp), lift "max" (by simp)]
  rfl

/-- The children of a descriptor's rule: those of its embedded schema, if it has one. -/
def childrenOf (descend : Target → Traced Rule) (d : Descriptor) :
    Except Failure (Option (List (String × Rule))) :=
  match Target.of? d with
  | none => .ok (Rule.bare d.type).children
  | some target => (descend target).outcome.map Rule.children

/-- The rule of the elements, if a descriptor has them. -/
def itemsOf (descend : Target → Traced Rule) (d : Descriptor) : Except Failure (Option Rule) :=
  match d.caster with
  | none => .ok none
  | some c => (childrenOf descend c).map fun children =>
    some ⟨elementFacets c.type c.opts, none, children⟩

variable {descend : Target → Traced Rule}

/-- The rule of an element, put together from its facets and its children. -/
theorem outcome_itemsRule {c : Descriptor} (made : c.Made)
    (pattern : c.type = .string → ∀ v, option? c.opts "match" = some v → IsPattern v) :
    (itemsRule descend c).outcome = (childrenOf descend c).map fun children =>
      ⟨elementFacets c.type c.opts, none, children⟩ := by
  unfold itemsRule childrenOf
  simp only [Traced.outcome_bind, Traced.outcome_lift, made.mapKind_eq, made.optionsOf_eq]
  cases embeds : Target.of? c with
  | some target =>
    rw [made.type_of_target embeds]
    simp only [Traced.outcome_bind]
    cases (descend target).outcome <;> rfl
  | none =>
    cases type : c.type with
    | string =>
      simp only [bind, Except.bind, liftString_eq (pattern type)]
      rfl
    | _ => rfl

theorem liftDefault_fieldFacets (type : PrimitiveType) (opts : Fields Value) :
    liftDefault { fieldFacets type opts with default := none } opts = fieldFacets type opts := by
  unfold liftDefault fieldFacets
  cases opts.get? "default" with
  | none => rfl
  | some v => cases callable : v.isCallable <;> simp [Option.filter, callable]

/-- **The rule of a declared descriptor**: its type, its facets, its elements and its children. -/
theorem outcome_ruleOf (made : d.Made) (wellFormed : d.WellFormed) :
    (ruleOf descend d).outcome = (do
      let items ← itemsOf descend d
      let children ← childrenOf descend d
      pure ⟨fieldFacets d.type d.opts, items, children⟩) := by
  have built (items : Option Rule) (children : Option (List (String × Rule))) :
      Except.ok (Rule.mk (liftDefault { fieldFacets d.type d.opts with default := none } d.opts)
        items children) =
      (Except.ok ⟨fieldFacets d.type d.opts, items, children⟩ : Except Failure Rule) := by
    rw [liftDefault_fieldFacets]
  unfold ruleOf childrenOf itemsOf
  simp only [Traced.outcome_bind, Traced.outcome_lift, made.mapKind_eq, made.optionsOf_eq]
  cases embeds : Target.of? d with
  | some target =>
    have type := made.type_of_target embeds
    cases element : d.caster with
    | some c => exact absurd ((made.type_of_caster element).1.symm.trans type) (by decide)
    | none =>
      rw [type] at built ⊢
      simp only [bind, Except.bind]
      dsimp only [Traced.bind]
      cases (descend target).outcome with
      | error e => rfl
      | ok sub => exact built none sub.children
  | none =>
    cases element : d.caster with
    | some c =>
      obtain ⟨type, inner⟩ := made.type_of_caster element
      have items : (itemsRule descend c).outcome = _ :=
        outcome_itemsRule inner (wellFormed.element c element)
      rw [type] at built ⊢
      simp only [bind, Except.bind]
      dsimp only [Traced.bind]
      rw [items]
      cases childrenOf descend c with
      | error e => rfl
      | ok children => exact built (some _) _
    | none =>
      cases type : d.type with
      | string =>
        simp only [bind, Except.bind, liftString_eq (wellFormed.pattern type)]
        rw [type] at built
        exact built none _
      | date =>
        simp only [bind, Except.bind, liftDate_eq (wellFormed.bounds type)]
        rw [type] at built
        exact built none _
      | _ =>
        rw [type] at built
        exact built none _

end Introspection

end ShapeContract
