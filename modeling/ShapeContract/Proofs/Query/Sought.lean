import ShapeContract.Proofs.Lists
import ShapeContract.Query.Criteria

/-!
# What a search asks for

The meaning of criteria without filter documents: each asks something of the value of one field, and
a text may be looked for in several fields. An item cannot be told of if the text of a value has to
be looked into and the value cannot be written. `Criteria.Asks` says which search the parts of
criteria stand for when each part is of the kind that it is meant to be.
-/

set_option autoImplicit false

namespace ShapeContract

/-- The value that an item has under a name. -/
def Value.field? (item : Value) (name : String) : Option Value :=
  item.entries?.bind fun es => es.get? (.str name)

/-- What is asked of the value of one field. -/
inductive Criterion where
  | equals (wanted : Value)
  | among (allowed : List Value)
  | within (low high : Option Value)
  | present
  | absent
  | like (p : Pattern)

namespace Criterion

/-- The value of a field unless it is missing or null. -/
def given (v : Option Value) : Option Value := v.bind Value.present?

def atMost (v w : Value) : Bool := (Value.le? v w).toOption.getD false

/-- Whether the value of a field is as asked: a truth value equals truth values only, a list is among
the allowed values if an element is, and a missing value has the empty text. -/
def holds : Criterion → Option Value → Bool
  | equals wanted, v => v.any fun v => Filter.isBool v == Filter.isBool wanted && v.equal wanted
  | among _, none => false
  | among allowed, some (.list vs) => vs.any fun v => v.among allowed
  | among allowed, some v => v.among allowed
  | within low high, v =>
    (given v).any fun v => (low.all fun b => atMost b v) && (high.all fun b => atMost v b)
  | present, v => (given v).isSome
  | absent, v => (given v).isNone
  | like p, v => Pattern.found p.node (((given v).map Value.display).getD "")

/-- What a criterion cannot tell of: the text is asked for of a value that cannot be written. -/
def Unread : Criterion → Option Value → Prop
  | like _, v => ∃ w, given v = some w ∧ w.displayable = false
  | _, _ => False

end Criterion

/-- A search: what is asked of the value of each field, and a text that one of several fields has. -/
structure Sought where
  equals : Fields Value := []
  among : Fields (List Value) := []
  within : Fields (Option Value × Option Value) := []
  search : Option (Pattern × List String) := none
  present : List String := []
  absent : List String := []
  like : Fields Pattern := []

namespace Sought

/-- What is asked of values as such. -/
def valued (s : Sought) : Fields Criterion :=
  s.equals.mapValues .equals ++ s.among.mapValues .among ++
    s.within.mapValues fun b => .within b.1 b.2

def criteria (s : Sought) : Fields Criterion :=
  s.valued ++ (s.present.map fun name => (name, .present)) ++
    (s.absent.map fun name => (name, .absent)) ++ s.like.mapValues .like

/-- Whether some field has the text that is looked for, if one is. -/
def found (s : Sought) (item : Value) : Bool :=
  s.search.all fun (p, names) => names.any fun name => (Criterion.like p).holds (item.field? name)

/-- Whether an item satisfies every single criterion. -/
def holds (s : Sought) (item : Value) : Bool :=
  s.found item && s.criteria.all fun e => e.2.holds (item.field? e.1)

/-- A search that comes to a field whose text cannot be had before it finds one that matches. -/
def Lost (s : Sought) (item : Value) : Prop :=
  ∃ p names, s.search = some (p, names) ∧
    Reaches (fun name => (Criterion.like p).holds (item.field? name) = false)
      (fun name => (Criterion.like p).Unread (item.field? name)) names

/-- An item that cannot be told of: texts are looked for first, then criterion after criterion is
asked until one does not hold, and on that way a text is needed that cannot be had. -/
def Stuck (s : Sought) (item : Value) : Prop :=
  s.Lost item ∨ (s.found item = true ∧
    Reaches (fun e => e.2.holds (item.field? e.1) = true)
      (fun e => e.2.Unread (item.field? e.1)) s.criteria)

/-- No field is named by two parts: criteria of one field are one criterion. -/
def Apart (s : Sought) : Prop := ∀ e ∈ s.criteria, ∀ d ∈ s.criteria, e.1 = d.1 → e = d

/-- Every range has a bound, and its bounds compare with what the items have in the field. -/
def Comparable (s : Sought) (items : List Value) : Prop :=
  ∀ e ∈ s.within, (e.2.1.isSome ∨ e.2.2.isSome) ∧
    ∀ item ∈ items, ∀ v, Criterion.given (item.field? e.1) = some v →
      (∀ low, e.2.1 = some low → ∃ t, Value.le? low v = .ok t) ∧
        ∀ high, e.2.2 = some high → ∃ t, Value.le? v high = .ok t

end Sought

namespace Criteria

/-- The entries of a part that is a mapping; a part that counts as false has none. -/
inductive Entered : Value → Fields Value → Prop
  | nothing {part : Value} (falsy : part.truthy = false) : Entered part []
  | mapping (fs : Fields Value) : Entered (.object fs) fs

/-- The names that a part lists; a part that counts as false lists none. -/
inductive Named : Value → List String → Prop
  | nothing {part : Value} (falsy : part.truthy = false) : Named part []
  | names {part : Value} {names : List String} (listed : part.items? = some (names.map .str)) :
    Named part names

/-- A mapping from fields to operands, each read on its own. -/
def EachEntered {α : Type} (R : Value → α → Prop) (part : Value) (ds : Fields α) : Prop :=
  ∃ fs, Entered part fs ∧ List.Forall₂ (fun e d => e.1 = d.1 ∧ R e.2 d.2) fs ds

/-- The bounds of a range; null is none. -/
inductive Bounded : Value → Option Value × Option Value → Prop
  | bounds (fs : Fields Value) : Bounded (.object fs)
    ((fs.get? "gte").bind Value.present?, (fs.get? "lte").bind Value.present?)

/-- A regular expression from its text and options, or one that is compiled already. -/
inductive Compiles [CharacterNames] : Value → RegexFlags → Pattern → Prop
  | text {v : Value} {source : String} {f : RegexFlags} {p : Pattern} (text : v.text? = some source)
    (made : Pattern.compile f source = .ok p) : Compiles v f p
  | compiled {source : String} {f : RegexFlags} {p : Pattern}
    (made : Pattern.compile f source = .ok p) : Compiles (.regex source f) {} p

/-- The options that letters stand for. -/
inductive Lettered : Option Value → RegexFlags → Prop
  | missing : Lettered none {}
  | nothing {v : Value} (falsy : v.truthy = false) : Lettered (some v) {}
  | letters (s : String) (known : ∀ c ∈ s.toList, c ∈ ['i', 'm', 's', 'x']) :
    Lettered (some (.str s)) (RegexFlags.ofLetters s)

inductive Matched [CharacterNames] : Value → Pattern → Prop
  | pattern {fs : Fields Value} {source : Value} {f : RegexFlags} {p : Pattern}
    (given : fs.get? "pattern" = some source) (options : Lettered (fs.get? "options") f)
    (made : Compiles source f p) : Matched (.object fs) p

/-- A search for a text; without a text or without fields it is none. -/
inductive Searched [CharacterNames] : Value → Option (Pattern × List String) → Prop
  | nothing {part : Value} (falsy : part.truthy = false) : Searched part none
  | idle (fs : Fields Value)
    (idle : ((fs.get? "q").any Value.truthy && (fs.get? "fields").any Value.truthy) = false) :
    Searched (.object fs) none
  | fields {fs : Fields Value} {text fields : Value} {p : Pattern} {names : List String}
    (q : fs.get? "q" = some text) (truthy : text.truthy = true)
    (given : fs.get? "fields" = some fields) (any : names ≠ [])
    (listed : fields.items? = some (names.map .str))
    (made : Compiles text { ignoreCase := !isExact (fs.get? "case_insensitive") } p) :
    Searched (.object fs) (some (p, names))

/-- The search that the parts stand for. -/
structure Asks [CharacterNames] (c : Criteria) (s : Sought) : Prop where
  equals : Entered c.equals s.equals
  among : EachEntered (fun v vs => v.items? = some vs) c.among s.among
  range : EachEntered Bounded c.range s.within
  search : Searched c.search s.search
  present : Named c.present s.present
  absent : Named c.absent s.absent
  regex : EachEntered Matched c.regex s.like

end Criteria

end ShapeContract
