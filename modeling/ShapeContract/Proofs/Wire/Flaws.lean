import ShapeContract.Proofs.Pattern.ObjectId
import ShapeContract.Proofs.Wire.Origin
import ShapeContract.Proofs.Wire.Writable

/-!
# Bad facets

The document of a rule tree is refused for its facets alone: for a negative length, a negative
number of items or a pattern that does not compile, of a rule that the document is made of. The
check names the first of them that it meets. But a pattern that asks for too much, or an integer too
long for the message, ends the check with a failure of its own.
-/

set_option autoImplicit false

namespace ShapeContract

/-! ## Faulty rules -/

namespace Rule

/-- The rules that the document of a rule is made of: its own, those of the children of an object
and of the elements of an array. -/
inductive Emits : Rule → Rule → Prop
  | self (r : Rule) : Emits r r
  | child {r c d : Rule} {name : String} (isObject : r.type = .object) (inside : (name, c) ∈ r.kids)
      (below : Emits c d) : Emits r d
  | element {r c d : Rule} (isArray : r.type = .array) (items : r.items = some c)
      (below : Emits c d) : Emits r d

/-- The pattern of the rule, unless it is empty. -/
def patternText? (r : Rule) : Option String :=
  (r.facets.pattern.bind Value.text?).filter fun s => s ≠ ""

/-- The rule that the document of a tree is made of. -/
def root (t : Rule) : Rule := ⟨Rule.empty.facets, none, some t.kids⟩

section

variable {r c : Rule}

end

end Rule

namespace Wire

/-! ## Flaws -/

/-- A finding without its place and its wording. -/
inductive Flaw where
  | breach
  | escape (e : Failure)

namespace Flaw

def escapes : Flaw → Bool
  | .breach => false
  | .escape _ => true

/-- The flaw of a value that the message quotes. -/
def about (v : Value) : Flaw := if v.writable then .breach else .escape .valueMisuse

/-- The flaws of the element rule of an array count as one, whose message quotes its document. -/
def gathered (v : Value) (flaws : List Flaw) : List Flaw :=
  match flaws.find? escapes with
  | some f => [f]
  | none => if flaws.isEmpty then [] else [about v]

def ofCount : Option Value → List Flaw
  | some (.int i) => if i < 0 then [about (.int i)] else []
  | _ => []

/-- The flaw of a pattern that does not compile for the cause: only a malformed one is a breach. -/
def uncompiled : Failure → Flaw
  | .misuse .pattern => .breach
  | e => .escape e

def ofPattern [CharacterNames] : Option String → List Flaw
  | none => []
  | some s =>
    match Pattern.compile {} s with
    | .ok _ => []
    | .error e => [uncompiled e]

mutual

/-- The flaws of a rule, in the order in which the check of its document meets them. -/
def ofRule [CharacterNames] (a : Bool) : Rule → List Flaw
  | ⟨f, items, children⟩ =>
    match f.type with
    | .string => ofCount f.maxLength ++ ofCount f.minLength ++
        ofPattern (Rule.patternText? ⟨f, items, children⟩)
    | .array => ofItems a items ++ ofCount f.maxItems ++ ofCount f.minItems
    | .object => ofChildren a children
    | _ => []

def ofItems [CharacterNames] (a : Bool) : Option Rule → List Flaw
  | none => []
  | some r => gathered (Wire.ofRule a r) (ofRule a r)

def ofChildren [CharacterNames] (a : Bool) : Option (List (String × Rule)) → List Flaw
  | none => []
  | some cs => ofFields a cs

def ofFields [CharacterNames] (a : Bool) : List (String × Rule) → List Flaw
  | [] => []
  | (_, c) :: rest => ofRule a c ++ ofFields a rest

end

theorem ofFields_eq [CharacterNames] (a : Bool) (cs : Fields Rule) :
    ofFields a cs = cs.flatMap fun e => ofRule a e.2 := by
  induction cs with
  | nil => rfl
  | cons e rest ih =>
    obtain ⟨name, c⟩ := e
    rw [ofFields, ih, List.flatMap_cons]

/-- The flaws of an object are those of its children. -/
theorem ofRule_of_object [CharacterNames] (a : Bool) {r : Rule} (isObject : r.type = .object) :
    ofRule a r = r.kids.flatMap fun e => ofRule a e.2 := by
  obtain ⟨f, items, children⟩ := r
  change f.type = .object at isObject
  rw [ofRule]
  simp only [isObject]
  cases children with
  | none => rfl
  | some cs => exact ofFields_eq a cs

/-- The flaws of an array in the order of the check: those of its elements come first. -/
theorem ofRule_of_array [CharacterNames] (a : Bool) {r : Rule} (isArray : r.type = .array) :
    ofRule a r = ofItems a r.items ++ ofCount r.facets.maxItems ++ ofCount r.facets.minItems := by
  obtain ⟨f, items, children⟩ := r
  change f.type = .array at isArray
  rw [ofRule]
  simp only [isArray]

end Flaw

namespace Finding

def flaw : Finding → Flaw
  | .breach _ _ => .breach
  | .abort e => .escape e

@[simp] theorem flaw_about (v : Value) (reason : String) : (about v reason).flaw = .about v := by
  unfold about Flaw.about
  cases v.writable <;> rfl

end Finding

/-! ## Documents by their keywords -/

namespace Metaschema

theorem itemsIn_eq [CharacterNames] (fs : Fields Value) :
    itemsIn fs = keyword fs "items" fun v => either v (findings v) (schemaList v) := by
  induction fs with
  | nil => rfl
  | cons e rest ih =>
    obtain ⟨name, v⟩ := e
    rw [itemsIn, ih]
    unfold keyword
    rw [Fields.get?_cons]
    split <;> rfl

/-- The findings of a keyword without their place. -/
def keywordFlaws (fs : Fields Value) (name : String) (rule : Value → List Finding) : List Flaw :=
  (fs.get? name).elim [] fun v => (rule v).map Finding.flaw

@[simp] theorem keywordFlaws_nil (name : String) (rule : Value → List Finding) :
    keywordFlaws [] name rule = [] := rfl

@[simp] theorem keywordFlaws_cons (k : String) (v : Value) (rest : Fields Value) (name : String)
    (rule : Value → List Finding) :
    keywordFlaws ((k, v) :: rest) name rule =
      if k = name then (rule v).map Finding.flaw else keywordFlaws rest name rule := by
  unfold keywordFlaws
  rw [Fields.get?_cons]
  split <;> rfl

/-- An entry that is there hides the same keyword of the fields after it. -/
@[simp] theorem keywordFlaws_entry (k : String) (b : Option Value) (rest : Fields Value) (name : String)
    (rule : Value → List Finding) :
    keywordFlaws (Rule.entry k b ++ rest) name rule =
      if k = name then b.elim (keywordFlaws rest name rule) fun v => (rule v).map Finding.flaw
      else keywordFlaws rest name rule := by
  cases b with
  | none => simp [Rule.entry]
  | some v => simp [Rule.entry]

/-- The same where nothing comes after the entry. -/
@[simp] theorem keywordFlaws_lastEntry (k : String) (b : Option Value) (name : String)
    (rule : Value → List Finding) :
    keywordFlaws (Rule.entry k b) name rule =
      if k = name then b.elim [] fun v => (rule v).map Finding.flaw else [] := by
  have whole := keywordFlaws_entry k b [] name rule
  rwa [List.append_nil] at whole

end Metaschema

/-! ## Flaws and faulty rules -/

namespace Flaw

/-- Where an escape comes from: a pattern that does not compile and is not malformed, or a document
that cannot be written. -/
inductive Escapes [CharacterNames] (document : Value) (r : Rule) (e : Failure) : Prop
  | pattern {c : Rule} {s : String} (emits : r.Emits c) (isString : c.type = .string)
      (text : c.patternText? = some s) (broken : Pattern.compile {} s = .error e)
      (other : e ≠ .misuse .pattern)
  | unwritable (long : document.writable = false) (cause : e = .valueMisuse)

/-- What escapes from a rule below escapes from the whole. -/
theorem Escapes.above [CharacterNames] {document whole : Value} {c r : Rule} {e : Failure}
    (below : Escapes document c e) (emits : ∀ {d}, c.Emits d → r.Emits d)
    (part : document.writable = false → whole.writable = false) : Escapes whole r e := by
  cases below with
  | pattern inside isString text broken other => exact .pattern (emits inside) isString text broken other
  | unwritable long cause => exact .unwritable (part long) cause

end Flaw

/-! ## Refusal -/

/-- The outcome that the first flaw of a document leads to. -/
inductive Flaw.Settles : List Flaw → Except Failure Validator → Prop
  | accepted (c : Validator) : Settles [] (.ok c)
  | refused (reason : String) (path : Option String) (rest : List Flaw) :
      Settles (.breach :: rest) (.error (.wireRejected reason path))
  | ended (e : Failure) (rest : List Flaw) : Settles (.escape e :: rest) (.error e)

section

attribute [local instance] CharacterNames.common

end

section

attribute [local instance] CharacterNames.common

end

end Wire

end ShapeContract
