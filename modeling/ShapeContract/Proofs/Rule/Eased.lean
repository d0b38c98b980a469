import ShapeContract.Proofs.Rule.Misses
import ShapeContract.Proofs.Wire.Relaxed

/-!
# Rules that are no longer required

Two rules that differ only in what is required, at some paths below them, have schemas that differ
only in required names. Attaching rules to trees keeps this: at the paths where the attached rules
differ and at those where the trees did.
-/

set_option autoImplicit false

namespace ShapeContract

/-- Writing entries in step under one name keeps mappings in step. -/
theorem Fields.forall₂_put {α β : Type} {R : String × α → String × β → Prop}
    (named : ∀ e d, R e d → e.1 = d.1) {fs : Fields α} {gs : Fields β} (fields : List.Forall₂ R fs gs)
    {name : String} {x : α} {y : β} (entry : R (name, x) (name, y)) :
    List.Forall₂ R (fs.put name x) (gs.put name y) := by
  induction fields with
  | nil => exact .cons entry .nil
  | @cons e d _ _ head tail ih =>
    obtain ⟨other, _⟩ := e
    obtain ⟨_, _⟩ := d
    obtain rfl := named _ _ head
    rw [Fields.put, Fields.put]
    split
    next here =>
      subst here
      exact .cons entry tail
    next => exact .cons head ih

/-- Fields related entry by entry stay related when related entries are written over them. -/
theorem Fields.forall₂_putAll {α β : Type} {R : String × α → String × β → Prop}
    (named : ∀ e d, R e d → e.1 = d.1) {fs : Fields α} {gs : Fields β}
    (fields : List.Forall₂ R fs gs) {more : Fields α} {others : Fields β}
    (later : List.Forall₂ R more others) : List.Forall₂ R (fs.putAll more) (gs.putAll others) := by
  induction later generalizing fs gs with
  | nil => exact fields
  | @cons e d _ _ head tail ih =>
    obtain ⟨name, x⟩ := e
    obtain ⟨_, y⟩ := d
    obtain rfl := named _ _ head
    exact ih (Fields.forall₂_put named fields head)

/-- What a rule says of its value, not whether there must be one. -/
def Facets.unrequired (f : Facets) : Facets := { f with required := none }

theorem Facets.type_of_unrequired {f g : Facets} (same : f.unrequired = g.unrequired) :
    f.type = g.type := by
  have types : f.unrequired.type = g.unrequired.type := by rw [same]
  exact types

theorem Facets.default_of_unrequired {f g : Facets} (same : f.unrequired = g.unrequired) :
    f.default = g.default := by
  have defaults : f.unrequired.default = g.unrequired.default := by rw [same]
  exact defaults

namespace Rule

/-- Required in both or in neither, or no longer required where that is free. -/
def Released (free : Prop) (before after : Rule) : Prop :=
  before.isRequired = after.isRequired ∨
    (before.isRequired = true ∧ after.isRequired = false ∧ free)

mutual

/-- The same but for what is said to be required: below, some children at the paths no longer are. -/
def Eased (free : List String → Prop) : Rule → Rule → Prop
  | ⟨f, items, children⟩, r =>
    f.unrequired = r.facets.unrequired ∧ items = r.items ∧
      ChildrenEased free children r.children

def ChildrenEased (free : List String → Prop) :
    Option (List (String × Rule)) → Option (List (String × Rule)) → Prop
  | none, children => children = none
  | some cs, children => ∃ ds, children = some ds ∧ FieldsEased free cs ds

def FieldsEased (free : List String → Prop) :
    List (String × Rule) → List (String × Rule) → Prop
  | [], ds => ds = []
  | (name, c) :: rest, ds => ∃ d more, ds = (name, d) :: more ∧ Released (free [name]) c d ∧
      Eased (fun path => free (name :: path)) c d ∧ FieldsEased free rest more

end

/-- One child, in step. -/
def ChildEased (free : List String → Prop) (e d : String × Rule) : Prop :=
  e.1 = d.1 ∧ Released (free [e.1]) e.2 d.2 ∧ Eased (fun path => free (e.1 :: path)) e.2 d.2

/-- Easing fields is easing them one by one. -/
theorem fieldsEased_iff {free : List String → Prop} {cs ds : Fields Rule} :
    FieldsEased free cs ds ↔ List.Forall₂ (ChildEased free) cs ds := by
  induction cs generalizing ds with
  | nil => simp [FieldsEased]
  | cons e rest ih =>
    obtain ⟨name, c⟩ := e
    rw [FieldsEased, List.forall₂_cons_left_iff]
    constructor
    · rintro ⟨d, more, rfl, released, eased, others⟩
      exact ⟨(name, d), more, ⟨rfl, released, eased⟩, ih.1 others, rfl⟩
    · rintro ⟨⟨_, d⟩, more, ⟨rfl, released, eased⟩, others, rfl⟩
      exact ⟨d, more, rfl, released, eased, ih.2 others⟩

/-- An eased rule has eased children. -/
theorem Eased.kids {free : List String → Prop} {r s : Rule} (eased : Eased free r s) :
    List.Forall₂ (ChildEased free) r.kids s.kids := by
  obtain ⟨f, items, children⟩ := r
  obtain ⟨g, inner, others⟩ := s
  obtain ⟨-, -, children'⟩ := eased
  cases children with
  | none =>
    cases children'
    exact .nil
  | some cs =>
    obtain ⟨ds, rfl, fields⟩ := children'
    exact fieldsEased_iff.1 fields

theorem Released.refl (free : Prop) (r : Rule) : Released free r r := .inl rfl

/-- A rule is eased to itself, whatever paths are free. -/
theorem Eased.refl (free : List String → Prop) (r : Rule) : Eased free r r := by
  induction r using Rule.induct generalizing free with
  | node f items children _ kids =>
    refine ⟨rfl, rfl, ?_⟩
    cases children with
    | none => rfl
    | some cs =>
      refine ⟨cs, rfl, fieldsEased_iff.2 (List.forall₂_same.2 fun e inside => ?_)⟩
      exact ⟨rfl, .refl _ _, kids e inside _⟩

/-- A rule that is said to be required, or not. -/
theorem Eased.withRequired (free : List String → Prop) (r : Rule) (b : Bool) :
    Eased free r (r.withRequired b) := by
  obtain ⟨f, items, children⟩ := r
  obtain ⟨-, -, same⟩ := Eased.refl free ⟨f, items, children⟩
  exact ⟨rfl, rfl, same⟩

/-! ## Attaching -/

/-- Under a name both have a child, eased, or neither has one. -/
theorem forall₂_get? {free : List String → Prop} {cs ds : Fields Rule}
    (fields : List.Forall₂ (ChildEased free) cs ds) (name : String) :
    (cs.get? name = none ∧ ds.get? name = none) ∨
      ∃ c d, cs.get? name = some c ∧ ds.get? name = some d ∧ ChildEased free (name, c) (name, d) := by
  induction fields with
  | nil => exact .inl ⟨rfl, rfl⟩
  | @cons e g _ _ head _ ih =>
    obtain ⟨other, c⟩ := e
    obtain ⟨_, d⟩ := g
    obtain ⟨rfl, -, -⟩ := id head
    rw [Fields.get?_cons, Fields.get?_cons]
    split
    next here =>
      subst here
      exact .inr ⟨c, d, rfl, rfl, head⟩
    next => exact ih

/-- Writing an eased child into eased rules keeps them eased … -/
theorem Eased.putChild {free : List String → Prop} {root other c d : Rule} {name : String}
    (roots : Eased free root other) (child : ChildEased free (name, c) (name, d)) :
    Eased free (root.putChild name c) (other.putChild name d) := by
  have kids := Fields.forall₂_put (fun _ _ eased => eased.1) roots.kids child
  obtain ⟨f, items, children⟩ := root
  obtain ⟨facets, element, -⟩ := roots
  exact ⟨facets, element, _, rfl, fieldsEased_iff.2 kids⟩

/-- Attaching below a rule leaves its own facets. -/
theorem facets_attachAt (root : Rule) (first : String) (rest : List String) (r : Rule) :
    (root.attachAt first rest r).facets = root.facets := by
  cases rest <;> rfl

/-- Attaching rules in step, below the same names, keeps trees in step. -/
theorem Eased.attachAt {free : List String → Prop} {root other r s : Rule} {first : String}
    {rest : List String} (roots : Eased free root other)
    (released : Released (free (first :: rest)) r s)
    (eased : Eased (fun path => free (first :: (rest ++ path))) r s) :
    Eased free (root.attachAt first rest r) (other.attachAt first rest s) := by
  induction rest generalizing free root other first with
  | nil => exact roots.putChild ⟨rfl, released, eased⟩
  | cons next rest ih =>
    rw [Rule.attachAt, Rule.attachAt]
    -- A node on the way is made in both trees or in neither, as they have the same names.
    rcases forall₂_get? roots.kids first with ⟨none, none'⟩ | ⟨c, d, here, there, -, kept, inside⟩
    · rw [child?, child?, none, none', Option.getD_none]
      refine roots.putChild ⟨rfl, .inl ?_, ih (.refl _ _) released eased⟩
      rw [isRequired, isRequired, facets_attachAt, facets_attachAt]
    · rw [child?, child?, here, there, Option.getD_some, Option.getD_some]
      refine roots.putChild ⟨rfl, ?_, ih inside released eased⟩
      rw [Released, isRequired, isRequired, facets_attachAt, facets_attachAt]
      exact kept

/-- A leaf with its path, in step. -/
def LeafEased (free : List String → Prop) (e d : String × Rule) : Prop :=
  e.1 = d.1 ∧ Released (free (segments e.1)) e.2 d.2 ∧
    Eased (fun path => free (segments e.1 ++ path)) e.2 d.2

/-- … so does attaching an eased leaf at its path. -/
theorem Eased.attach {free : List String → Prop} {root other : Rule} {e d : String × Rule}
    (roots : Eased free root other) (leaf : LeafEased free e d) :
    Eased free (root.attach e.1 e.2) (other.attach d.1 d.2) := by
  obtain ⟨same, released, eased⟩ := leaf
  rw [Rule.attach, Rule.attach, ← same]
  cases names : segments e.1 with
  | nil => exact roots
  | cons first rest =>
    rw [names] at released eased
    exact roots.attachAt released eased

end Rule

/-- Trees that are built from leaves in step are in step. -/
theorem Overrides.build_eased {free : List String → Prop} {leaves others : Fields Rule}
    (eased : List.Forall₂ (Rule.LeafEased free) leaves others) :
    Rule.Eased free (build leaves) (build others) := by
  have attached : ∀ root other : Rule, Rule.Eased free root other →
      Rule.Eased free (leaves.foldl (fun root e => root.attach e.1 e.2) root)
        (others.foldl (fun root e => root.attach e.1 e.2) other) := by
    induction eased with
    | nil => exact fun _ _ roots => roots
    | cons head _ ih => exact fun _ _ roots => ih _ _ (roots.attach head)
  exact attached _ _ (.refl free Rule.empty)

/-! ## Documents -/

namespace Wire

open Rule (Eased ChildEased)

/-- Only the document of the parent says what is required. -/
theorem ofRule_unrequired (a : Bool) {f : Facets} (notObject : f.type ≠ .object)
    (items : Option Rule) (children : Option (List (String × Rule))) :
    ofRule a ⟨f, items, children⟩ = ofRule a ⟨f.unrequired, items, none⟩ := by
  rw [ofRule, ofRule]
  cases type : f.type with
  | object => exact absurd type notObject
  | _ => simp only [Facets.unrequired, type] <;> rfl

/-- Where no object is asked for, rules in step have one document. -/
theorem ofRule_eased (a : Bool) {free : List String → Prop} {r s : Rule} (eased : Eased free r s)
    (notObject : r.type ≠ .object) : ofRule a r = ofRule a s := by
  obtain ⟨f, items, children⟩ := r
  obtain ⟨g, inner, others⟩ := s
  obtain ⟨facets, rfl, -⟩ := eased
  have type : f.type = g.type := Facets.type_of_unrequired facets
  have notObject' : g.type ≠ .object := fun isObject => notObject (type.trans isObject)
  have facets : f.unrequired = g.unrequired := facets
  rw [ofRule_unrequired a notObject, ofRule_unrequired a notObject', facets]

theorem ownRequired_cons (name : String) (c : Rule) (rest : Fields Rule) :
    ownRequired ((name, c) :: rest) =
      if c.isRequired then name :: ownRequired rest else ownRequired rest := by
  unfold ownRequired
  rw [List.filter_cons]
  split <;> rfl

/-- The required names of children in step. -/
theorem thinned_ownRequired {free : List String → Prop} {cs ds : Fields Rule}
    (fields : List.Forall₂ (ChildEased free) cs ds) :
    Thinned (fun name => free [name]) (ownRequired cs) (ownRequired ds) := by
  induction fields with
  | nil => exact .nil
  | @cons e g _ _ head _ ih =>
    obtain ⟨name, c⟩ := e
    obtain ⟨_, d⟩ := g
    obtain ⟨rfl, released, -⟩ := head
    rw [ownRequired_cons, ownRequired_cons]
    rcases released with same | ⟨before, after, allowed⟩
    · rw [show c.isRequired = d.isRequired from same]
      split
      · exact .kept name ih
      · exact ih
    · rw [if_pos (show c.isRequired = true from before),
        if_neg (by rw [show d.isRequired = false from after]; exact Bool.false_ne_true)]
      exact .dropped allowed ih

/-- Children in step have properties in step, if each child has. -/
theorem relaxedProperties_mapValues [CharacterNames] {a : Bool} {free : List String → Prop}
    {cs ds : Fields Rule}
    (fields : List.Forall₂ (ChildEased free) cs ds)
    (each : ∀ e ∈ cs, ∀ {free : List String → Prop} {d : Rule}, Eased free e.2 d →
      Relaxes free (schemaOf a e.2) (schemaOf a d)) :
    RelaxedProperties free (cs.mapValues (schemaOf a)) (ds.mapValues (schemaOf a)) := by
  induction fields with
  | nil => exact .nil
  | @cons e g _ _ head _ ih =>
    obtain ⟨first, rest⟩ := List.forall_mem_cons.1 each
    exact .cons ⟨head.1, first head.2.2⟩ (ih rest)

/-- The schema of an eased rule only loses demands for the freed paths. -/
theorem relaxes_schemaOf [CharacterNames] (a : Bool) {free : List String → Prop} {r s : Rule}
    (eased : Eased free r s) : Relaxes free (schemaOf a r) (schemaOf a s) := by
  induction r using Rule.induct generalizing free s with
  | node f items children _ kids =>
    by_cases isObject : f.type = .object
    · have fields := eased.kids
      obtain ⟨g, inner, others⟩ := s
      obtain ⟨facets, -, -⟩ := eased
      have type : f.type = g.type := Facets.type_of_unrequired facets
      have default : f.default = g.default := Facets.default_of_unrequired facets
      rw [schemaOf_of_object a isObject, schemaOf_of_object a (type.symm.trans isObject), default]
      refine Relaxes.object ?_ (thinned_ownRequired fields) a g.default
      exact relaxedProperties_mapValues fields fun e inside => kids e inside
    · rw [schemaOf, ofRule_eased a eased isObject]
      exact .refl free _

end Wire

end ShapeContract
