import ShapeContract.Proofs.Value.Canonical
import ShapeContract.Wire.Validator

/-!
# Wire documents and validators that are the same

Wire documents are the same up to the order of properties and of required names, at every depth.
Validators are the same if they accept the same payloads, with the same data, and refuse the others
for the same pairs of field and keyword.
-/

set_option autoImplicit false

namespace ShapeContract

namespace Value

mutual

/-- Every value is the same data as itself. -/
theorem SameData.refl : ∀ v : Value, SameData v v
  | .list vs => ⟨vs, rfl, SameItems.refl vs⟩
  | .object fs => ⟨fs, fs, rfl, List.Perm.refl fs, SameFields.refl fs⟩
  | .null => rfl
  | .bool _ => rfl
  | .int _ => rfl
  | .float _ => rfl
  | .str _ => rfl
  | .mapping _ _ => rfl
  | .tuple _ => rfl
  | .set _ => rfl
  | .regex _ _ => rfl
  | .native _ => rfl
  | .enumeration _ _ _ => rfl
  | .member _ _ _ _ => rfl
  | .datetime _ => rfl
  | .date _ => rfl
  | .callable => rfl
  | .rule _ => rfl
  | .source _ => rfl

theorem SameItems.refl : ∀ vs : List Value, SameItems vs vs
  | [] => rfl
  | v :: vs => ⟨v, vs, rfl, SameData.refl v, SameItems.refl vs⟩

theorem SameFields.refl : ∀ fs : List (String × Value), SameFields fs fs
  | [] => rfl
  | (_, v) :: fs => ⟨v, fs, rfl, SameData.refl v, SameFields.refl fs⟩

end

end Value

namespace Wire

/-- Lists of required names in some order; other values as they are. -/
def SameNames (v w : Value) : Prop :=
  v = w ∨ ∃ vs ws, v = .list vs ∧ w = .list ws ∧ vs.Perm ws

mutual

/-- One wire document up to the order of properties and of required names. -/
def SameDocument : Value → Value → Prop
  | .object ks, w => ∃ ls, w = .object ls ∧ SameKeywords ks ls
  | v, w => v = w
termination_by structural v => v

/-- The same keywords in the same order, each with the same operand. -/
def SameKeywords : List (String × Value) → List (String × Value) → Prop
  | [], ls => ls = []
  | (name, v) :: ks, ls => ∃ w tail, ls = (name, w) :: tail ∧ SameKeywords ks tail ∧
    if name = "properties" then SameProperties v w
    else if name = "items" then SameDocument v w
    else if name = "required" then SameNames v w
    else Value.SameData v w
termination_by structural ks => ks

def SameProperties : Value → Value → Prop
  | .object ps, w => ∃ qs hs, w = .object qs ∧ hs.Perm qs ∧ SameDocuments ps hs
  | v, w => v = w
termination_by structural v => v

def SameDocuments : List (String × Value) → List (String × Value) → Prop
  | [], qs => qs = []
  | (name, d) :: ps, qs => ∃ e tail, qs = (name, e) :: tail ∧ SameDocument d e ∧ SameDocuments ps tail
termination_by structural ps => ps

end

mutual

/-- Every document is the same as itself. -/
theorem SameDocument.refl : ∀ d : Value, SameDocument d d
  | .object ks => ⟨ks, rfl, SameKeywords.refl ks⟩
  | .null => rfl
  | .bool _ => rfl
  | .int _ => rfl
  | .float _ => rfl
  | .str _ => rfl
  | .list _ => rfl
  | .mapping _ _ => rfl
  | .tuple _ => rfl
  | .set _ => rfl
  | .regex _ _ => rfl
  | .native _ => rfl
  | .enumeration _ _ _ => rfl
  | .member _ _ _ _ => rfl
  | .datetime _ => rfl
  | .date _ => rfl
  | .callable => rfl
  | .rule _ => rfl
  | .source _ => rfl

theorem SameKeywords.refl : ∀ ks : List (String × Value), SameKeywords ks ks
  | [] => rfl
  | (name, v) :: ks => by
    refine ⟨v, ks, rfl, SameKeywords.refl ks, ?_⟩
    split
    · exact SameProperties.refl v
    · split
      · exact SameDocument.refl v
      · split
        · exact Or.inl rfl
        · exact Value.SameData.refl v

theorem SameProperties.refl : ∀ v : Value, SameProperties v v
  | .object ps => ⟨ps, ps, rfl, List.Perm.refl ps, SameDocuments.refl ps⟩
  | .null => rfl
  | .bool _ => rfl
  | .int _ => rfl
  | .float _ => rfl
  | .str _ => rfl
  | .list _ => rfl
  | .mapping _ _ => rfl
  | .tuple _ => rfl
  | .set _ => rfl
  | .regex _ _ => rfl
  | .native _ => rfl
  | .enumeration _ _ _ => rfl
  | .member _ _ _ _ => rfl
  | .datetime _ => rfl
  | .date _ => rfl
  | .callable => rfl
  | .rule _ => rfl
  | .source _ => rfl

theorem SameDocuments.refl : ∀ ps : List (String × Value), SameDocuments ps ps
  | [] => rfl
  | (_, d) :: ps => ⟨d, ps, rfl, SameDocument.refl d, SameDocuments.refl ps⟩

end

/-- The same answer to a payload: the same data, or errors at the same fields for the same keywords. -/
inductive SameVerdict : Verdict → Verdict → Prop
  | accepted (v w : Value) (same : Value.SameData v w) : SameVerdict (.accepted v) (.accepted w)
  | rejected (es fs : List FieldError)
    (same : ∀ field keyword, (∃ e ∈ es, e.field = field ∧ e.error = keyword) ↔
      ∃ e ∈ fs, e.field = field ∧ e.error = keyword) : SameVerdict (.rejected es) (.rejected fs)

/-- The same failure, or results that are the same in a sense. -/
inductive SameOutcome {α : Type} (Same : α → α → Prop) : Except Failure α → Except Failure α → Prop
  | failed (e : Failure) : SameOutcome Same (.error e) (.error e)
  | done (a b : α) (same : Same a b) : SameOutcome Same (.ok a) (.ok b)

namespace SameOutcome

variable {α β : Type} {Same : α → α → Prop} {Same' : β → β → Prop} {x y : Except Failure α}

/-- A weaker relation relates the same outcomes. -/
theorem mono {Other : α → α → Prop} (same : SameOutcome Same x y)
    (weaker : ∀ a b, Same a b → Other a b) : SameOutcome Other x y := by
  cases same with
  | failed e => exact .failed e
  | done a b both => exact .done a b (weaker a b both)

/-- Same outcomes stay the same through steps that preserve it; errors are equal throughout. -/
theorem bind {f g : α → Except Failure β} (same : SameOutcome Same x y)
    (next : ∀ a b, Same a b → SameOutcome Same' (f a) (g b)) :
    SameOutcome Same' (x >>= f) (y >>= g) := by
  cases same with
  | failed e => exact .failed e
  | done a b both => exact next a b both

/-- The same for a final rearrangement. -/
theorem map {f g : α → β} (same : SameOutcome Same x y) (next : ∀ a b, Same a b → Same' (f a) (g b)) :
    SameOutcome Same' (x.map f) (y.map g) := by
  cases same with
  | failed e => exact .failed e
  | done a b both => exact .done _ _ (next a b both)

/-- Outcomes related by what a function cannot see are equal after it. -/
theorem map_eq {f : α → β} (same : SameOutcome Same x y) (equal : ∀ a b, Same a b → f a = f b) :
    x.map f = y.map f := by
  cases same with
  | failed e => rfl
  | done a b both => exact congrArg Except.ok (equal a b both)

/-- Relations compose through a common outcome. -/
theorem trans {Other Both : α → α → Prop} {z : Except Failure α} (first : SameOutcome Same x y)
    (second : SameOutcome Other y z) (both : ∀ a b c, Same a b → Other b c → Both a c) :
    SameOutcome Both x z := by
  cases first with
  | failed e =>
    cases second
    exact .failed e
  | done a b same =>
    cases second with
    | done _ c other => exact .done a c (both a b c same other)

/-- More can be said of results once it is known what they are the results of. -/
theorem imp {More : α → α → Prop} (same : SameOutcome Same x y)
    (more : ∀ a b, x = .ok a → y = .ok b → Same a b → More a b) : SameOutcome More x y := by
  cases same with
  | failed e => exact .failed e
  | done a b both => exact .done a b (more a b rfl rfl both)

end SameOutcome

/-- Validators that give the same answer to every payload. -/
def SameValidator (a b : Validator) : Prop :=
  ∀ payload, SameOutcome SameVerdict (a.judge payload) (b.judge payload)

theorem SameVerdict.refl (v : Verdict) : SameVerdict v v := by
  cases v with
  | accepted data => exact .accepted data data (Value.SameData.refl data)
  | rejected es => exact .rejected es es fun _ _ => Iff.rfl

theorem SameOutcome.refl {α : Type} {Same : α → α → Prop} (refl : ∀ a, Same a a)
    (x : Except Failure α) : SameOutcome Same x x := by
  cases x with
  | error e => exact .failed e
  | ok a => exact .done a a (refl a)

theorem SameValidator.refl (a : Validator) : SameValidator a a :=
  fun payload => SameOutcome.refl SameVerdict.refl (a.judge payload)

end Wire

end ShapeContract
