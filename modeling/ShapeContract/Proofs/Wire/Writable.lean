import ShapeContract.Proofs.Wire.Answers

/-!
# Answers without long numbers

Where no integer of the schema and the payload has too many digits, preparation brings none in and
every message can be written, so nothing but a text that is to be coerced is in the way of an answer.
-/

set_option autoImplicit false

namespace ShapeContract

namespace Value

/-- A list is writable when each of its items is … -/
theorem writableAll_iff {vs : List Value} :
    writableAll vs = true ↔ ∀ v ∈ vs, v.writable = true := by
  induction vs with
  | nil => simp [writableAll]
  | cons v vs ih => simp [writableAll, ih]

/-- … and a mapping when each of its values is. -/
theorem writableFields_iff {fs : Fields Value} :
    writableFields fs = true ↔ ∀ e ∈ fs, e.2.writable = true := by
  induction fs with
  | nil => simp [writableFields]
  | cons e fs ih => simp [writableFields, ih]

/-- The members of a value that can be written can be written. -/
theorem writable_members {v : Value} {fs : Fields Value} (short : v.writable = true)
    (members : v.members? = some fs) : ∀ e ∈ fs, e.2.writable = true := by
  cases v with
  | object gs =>
    cases members
    exact writableFields_iff.1 short
  | mapping ks vs =>
    cases members
    rintro ⟨name, w⟩ inside
    obtain ⟨⟨k, v⟩, among, here⟩ := List.mem_filterMap.1 inside
    obtain ⟨_, -, same⟩ := Option.map_eq_some_iff.1 here
    cases same
    rw [writable, Bool.and_eq_true] at short
    exact writableAll_iff.1 short.2 v (List.of_mem_zip among).2
  | _ => cases members

/-- The keys of a mapping and its values. -/
theorem writable_entries {v : Value} (short : v.writable = true) :
    ∀ e ∈ v.entries?.getD [], e.1.writable = true ∧ e.2.writable = true := by
  cases v with
  | object gs =>
    intro e inside
    obtain ⟨d, among, rfl⟩ := List.mem_map.1 inside
    exact ⟨rfl, writableFields_iff.1 short d among⟩
  | mapping ks vs =>
    rintro ⟨k, w⟩ inside
    rw [writable, Bool.and_eq_true] at short
    have both := List.of_mem_zip inside
    exact ⟨writableAll_iff.1 short.1 k both.1, writableAll_iff.1 short.2 w both.2⟩
  | _ =>
    intro e inside
    cases inside

end Value

namespace Decimal

/-- Powers of ten bound the digits of what is below them. -/
theorem pow_le_powerOfTen {m n : Nat} (le : m ≤ n) : 10 ^ m ≤ powerOfTen n :=
  Nat.pow_le_pow_right (by decide) le

end Decimal

namespace Text

/-- A digit is less than ten. -/
theorem decimalValue?_lt {c : Char} {d : Nat} (value : decimalValue? c = some d) : d < 10 := by
  simp only [decimalValue?] at value
  split at value
  next =>
    split at value
    next => cases value; omega
    next => cases value
  next =>
    obtain ⟨z, found, rfl⟩ := Option.map_eq_some_iff.1 value
    have within := List.find?_some found
    simp only [Bool.and_eq_true, decide_eq_true_eq] at within
    omega

/-- A digit in front of a run. -/
theorem digits_lt_cons {c : Char} {rest : List Char}
    (tail : ∀ {ds}, digitRun? rest = some ds → ∀ d ∈ ds, d < 10) {ds : List Nat}
    (run : (do
      let d ← decimalValue? c
      let ds ← digitRun? rest
      pure (d :: ds)) = some ds) : ∀ d ∈ ds, d < 10 := by
  simp only [Option.bind_eq_bind, Option.bind_eq_some_iff] at run
  obtain ⟨d, value, ds, more, whole⟩ := run
  cases whole
  intro other inside
  rcases List.mem_cons.1 inside with rfl | later
  · exact decimalValue?_lt value
  · exact tail more other later

/-- A run of digits has digits only. -/
theorem digitRun?_lt (cs : List Char) : ∀ {ds : List Nat}, digitRun? cs = some ds →
    ∀ d ∈ ds, d < 10 := by
  induction cs using digitRun?.induct with
  | case1 =>
    intro ds run
    cases run
  | case2 c =>
    intro ds run d inside
    obtain ⟨d', value, rfl⟩ := Option.map_eq_some_iff.1 run
    cases List.mem_singleton.1 inside
    exact decimalValue?_lt value
  | case3 c rest ih =>
    intro ds run
    exact digits_lt_cons ih run
  | case4 c rest single joined ih =>
    intro ds run
    rw [digitRun?] at run
    · exact digits_lt_cons ih run
    · exact single
    · exact joined

/-- Digits after a number bring it below the next one with zeros. -/
theorem foldl_digits_lt {ds : List Nat} (digits : ∀ d ∈ ds, d < 10) (acc : Nat) :
    ds.foldl (fun acc d => 10 * acc + d) acc < (acc + 1) * 10 ^ ds.length := by
  induction ds generalizing acc with
  | nil => simp
  | cons d rest ih =>
    have small := digits d List.mem_cons_self
    have tail := ih (fun e later => digits e (List.mem_cons_of_mem _ later)) (10 * acc + d)
    calc
      _ < (10 * acc + d + 1) * 10 ^ rest.length := tail
      _ ≤ ((acc + 1) * 10) * 10 ^ rest.length := Nat.mul_le_mul_right _ (by omega)
      _ = (acc + 1) * 10 ^ (d :: rest).length := by
        rw [List.length_cons, Nat.pow_succ', Nat.mul_assoc]

/-- As many digits as there are bound the number. -/
theorem valueOf_lt {ds : List Nat} (digits : ∀ d ∈ ds, d < 10) : valueOf ds < 10 ^ ds.length := by
  simpa [valueOf] using foldl_digits_lt digits 0

end Text

namespace Wire

mutual

/-- Whether every integer that a schema names can be written. -/
def Schema.writable : Schema → Bool
  | .always => true
  | .never => true
  | .document ks => Schema.writableKeywords ks
termination_by structural s => s

def Schema.writableKeywords : List Keyword → Bool
  | [] => true
  | k :: rest => k.writable && Schema.writableKeywords rest
termination_by structural ks => ks

def Keyword.writable : Keyword → Bool
  | .properties ps => Schema.writableProperties ps
  | .additional s => s.writable
  | .items s => s.writable
  | .itemList ss => Schema.writableEach ss
  | .minimum n => n.toValue.writable
  | .maximum n => n.toValue.writable
  | .enum vs => Value.writableAll vs
  | .default v => v.writable
  | _ => true
termination_by structural k => k

def Schema.writableProperties : List (String × Schema) → Bool
  | [] => true
  | (_, s) :: rest => s.writable && Schema.writableProperties rest
termination_by structural ps => ps

def Schema.writableEach : List Schema → Bool
  | [] => true
  | s :: rest => s.writable && Schema.writableEach rest
termination_by structural ss => ss

end

/-- Every message of some violations can be written. -/
def AllWritable (es : List Violation) : Prop := ∀ e ∈ es, e.writable = true

namespace AllWritable

theorem nil : AllWritable [] := fun _ inside => nomatch inside

/-- Violations are writable together when both halves are. -/
theorem append {es ds : List Violation} (first : AllWritable es) (second : AllWritable ds) :
    AllWritable (es ++ ds) := by
  intro e inside
  rcases List.mem_append.1 inside with left | right
  · exact first e left
  · exact second e right

/-- A message can be written if all that it quotes can. -/
theorem here {keyword message : String} {quoted : List Value}
    (short : ∀ v ∈ quoted, v.writable = true) : AllWritable [.here keyword message quoted] := by
  intro e inside
  cases List.mem_singleton.1 inside
  exact Value.writableAll_iff.2 short

/-- A failed demand is writable when what it quotes is. -/
theorem demand {holds : Bool} {keyword message : String} {quoted : List Value}
    (short : ∀ v ∈ quoted, v.writable = true) :
    AllWritable (Wire.demand holds keyword message quoted) := by
  unfold Wire.demand
  split
  · exact nil
  · exact here short

/-- A message that is moved down a step quotes what it quoted. -/
theorem within {step : String} {s : Schema} {es : List Violation} (short : AllWritable es) :
    AllWritable (Wire.within step s es) := by
  unfold Wire.within
  split
  · intro e inside
    obtain ⟨d, among, rfl⟩ := List.mem_map.1 inside
    exact short d among
  · exact short

/-- Violations collected over a list are writable when each lot is. -/
theorem flatMap {α : Type} {xs : List α} {f : α → List Violation}
    (each : ∀ x ∈ xs, AllWritable (f x)) : AllWritable (xs.flatMap f) := by
  intro e inside
  obtain ⟨x, among, here⟩ := List.mem_flatMap.1 inside
  exact each x among e here

end AllWritable

section Check

variable {v : Value} (short : v.writable = true)

include short

theorem writable_itself : ∀ w ∈ [v], w.writable = true := by
  intro w inside
  cases List.mem_singleton.1 inside
  exact short

theorem writable_beside {w : Value} (other : w.writable = true) :
    ∀ u ∈ [v, w], u.writable = true := by
  intro u inside
  rcases List.mem_cons.1 inside with rfl | later
  · exact short
  · cases List.mem_singleton.1 later
    exact other

/-- A keyword that looks at nothing inside quotes the value, and perhaps itself. -/
theorem allWritable_checkPlain {k : Keyword} (named : k.writable = true) :
    AllWritable (k.checkPlain v) := by
  cases k with
  | type t => exact .demand (writable_itself short)
  | types ts => exact .demand (writable_itself short)
  | required names =>
    simp only [Keyword.checkPlain]
    split
    next =>
      intro e inside
      obtain ⟨name, -, rfl⟩ := List.mem_map.1 inside
      rfl
    next => exact .nil
  | minimum n =>
    simp only [Keyword.checkPlain]
    split <;> first | exact .demand (writable_beside short named) | exact .nil
  | maximum n =>
    simp only [Keyword.checkPlain]
    split <;> first | exact .demand (writable_beside short named) | exact .nil
  | enum vs => exact .demand (writable_beside short named)
  | minItems n | maxItems n | minLength n | maxLength n | pattern p | format name =>
    simp only [Keyword.checkPlain]
    split <;> first | exact .demand (writable_itself short) | exact .nil
  | _ => exact .nil

end Check

mutual

/-- Under a schema that names short integers only, the messages about a value with short ones can be
written. -/
theorem allWritable_check : ∀ (s : Schema) (v : Value), s.writable = true → v.writable = true →
    AllWritable (check s v)
  | .always, _, _, _ => .nil
  | .never, v, _, short => .here (writable_itself short)
  | .document ks, v, named, short => by
    rw [check]
    exact allWritable_checkAll _ ks v named short
termination_by structural s => s

/-- All keywords of a document quote only what can be written. -/
theorem allWritable_checkAll (declared : List String) : ∀ (ks : List Keyword) (v : Value),
    Schema.writableKeywords ks = true → v.writable = true → AllWritable (checkAll declared ks v)
  | [], _, _, _ => .nil
  | k :: rest, v, named, short => by
    rw [Schema.writableKeywords, Bool.and_eq_true] at named
    rw [checkAll]
    exact .append (allWritable_checkKeyword declared k v named.1 short)
      (allWritable_checkAll declared rest v named.2 short)
termination_by structural ks => ks

/-- One keyword, by its kind: those with schemas inside from the schemas. -/
theorem allWritable_checkKeyword (declared : List String) : ∀ (k : Keyword) (v : Value),
    k.writable = true → v.writable = true → AllWritable (checkKeyword declared k v)
  | .properties ps, v, named, short => by
    rw [checkKeyword]
    split
    next fs members =>
      exact allWritable_checkProperties ps fs named (Value.writable_members short members)
    next => exact .nil
  | .additional s, v, named, short => by
    have entries : ∀ e ∈ extras declared v, e.1.writable = true ∧ e.2.writable = true := by
      intro e inside
      exact Value.writable_entries short e (List.mem_of_mem_filter inside)
    have values : AllWritable ((extras declared v).flatMap fun e =>
        within e.1.display s (check s e.2)) := by
      apply AllWritable.flatMap
      intro e inside
      exact .within (allWritable_check s e.2 named (entries e inside).2)
    cases s with
    | never =>
      refine .demand ?_
      intro w inside
      obtain ⟨e, among, rfl⟩ := List.mem_map.1 inside
      exact (entries e among).1
    | always => exact values
    | document ks => exact values
  | .items s, v, named, short => by
    cases v with
    | list vs =>
      rw [checkKeyword]
      refine .flatMap fun e inside => .within (allWritable_check s e.1 named ?_)
      exact Value.writableAll_iff.1 short _ (List.fst_mem_of_mem_zipIdx inside)
    | _ => exact .nil
  | .itemList ss, v, named, short => by
    cases v with
    | list vs =>
      rw [checkKeyword]
      exact allWritable_checkItems ss 0 vs named (Value.writableAll_iff.1 short)
    | _ => exact .nil
  | .type _, _, named, short | .types _, _, named, short | .required _, _, named, short
  | .minItems _, _, named, short | .maxItems _, _, named, short | .minLength _, _, named, short
  | .maxLength _, _, named, short | .minimum _, _, named, short | .maximum _, _, named, short
  | .pattern _, _, named, short | .enum _, _, named, short | .format _, _, named, short
  | .default _, _, named, short => allWritable_checkPlain short named
termination_by structural k => k

/-- The properties of a document, member by member. -/
theorem allWritable_checkProperties : ∀ (ps : List (String × Schema)) (fs : Fields Value),
    Schema.writableProperties ps = true → (∀ e ∈ fs, e.2.writable = true) →
      AllWritable (checkProperties ps fs)
  | [], _, _, _ => .nil
  | (name, s) :: rest, fs, named, short => by
    rw [Schema.writableProperties, Bool.and_eq_true] at named
    rw [checkProperties]
    refine .append ?_ (allWritable_checkProperties rest fs named.2 short)
    split
    next v found =>
      exact .within (allWritable_check s v named.1 (short _ (Fields.mem_of_get? found)))
    next => exact .nil
termination_by structural ps => ps

/-- The elements of a list, each by its schema. -/
theorem allWritable_checkItems : ∀ (ss : List Schema) (start : Nat) (vs : List Value),
    Schema.writableEach ss = true → (∀ v ∈ vs, v.writable = true) →
      AllWritable (checkItems start ss vs)
  | [], _, _, _, _ => .nil
  | s :: ss, start, [], _, _ => .nil
  | s :: ss, start, v :: vs, named, short => by
    rw [Schema.writableEach, Bool.and_eq_true] at named
    rw [checkItems]
    exact .append (.within (allWritable_check s v named.1 (short v List.mem_cons_self)))
      (allWritable_checkItems ss _ vs named.2 fun w later => short w (List.mem_cons_of_mem _ later))
termination_by structural ss => ss

end

/-! ## Preparation -/

/-- A number of few enough digits is below the limit. -/
theorem pow_le_integerLimit {n : Nat} (short : n ≤ Text.digitLimit) :
    10 ^ n ≤ Value.integerLimit := by
  unfold Value.integerLimit
  exact Decimal.pow_le_powerOfTen short

/-- An integer that is read from a text has few enough digits, as longer texts are refused. -/
theorem writable_of_wholeNumber {cs : List Char} {i : Int} (value : Text.wholeNumber? cs = some i) :
    (Value.int i).writable = true := by
  rw [Value.writable, decide_eq_true_eq]
  unfold Text.wholeNumber? at value
  simp only at value
  split at value
  next ds run =>
    split at value
    next => cases value
    next short =>
      have below := Text.valueOf_lt (Text.digitRun?_lt _ run)
      have limit := pow_le_integerLimit (Nat.not_lt.1 short)
      have size : i.natAbs = Text.valueOf ds := by
        cases value
        split <;> omega
      omega
  next => cases value

/-- The whole number of a double has far fewer digits than the limit. -/
theorem writable_of_integral {x : Double} {i : Int} (whole : x.integral? = some i) :
    (Value.int i).writable = true := by
  rw [Value.writable, decide_eq_true_eq]
  have below := (Double.natAbs_integral_lt whole).trans_le (Double.powerOfTwo_le 1024)
  exact below.trans_le (pow_le_integerLimit (by decide))

theorem writable_truth (b : Bool) : (Value.int (if b then 1 else 0)).writable = true := by
  have limit := pow_le_integerLimit (show 1 ≤ Text.digitLimit by decide)
  rw [Value.writable, decide_eq_true_eq]
  cases b <;> simp <;> omega

namespace Coercion

/-- What is made of a text as a number can be written. -/
theorem writable_numberOfText (fractional : Bool) {s : String} {w : Value}
    (done : numberOfText fractional s = .ok w) : w.writable = true := by
  unfold numberOfText at done
  simp only at done
  split at done
  next =>
    unfold wholeOf at done
    split at done
    next i value => cases done; exact writable_of_wholeNumber value
    next => cases done
  next =>
    split at done
    next => cases done; rfl
    next => cases done; rfl

/-- The text of an integer is as short as the integer's digits. -/
theorem writable_wholeText {i : Int} {w : Value} (done : wholeText i = .ok w) :
    w.writable = true := by
  unfold wholeText at done
  split at done
  next => cases done
  next => cases done; rfl

variable {v w : Value} (short : v.writable = true)

include short

/-- Coercion to a number keeps to what can be written. -/
theorem writable_toNumber (done : toNumber v = .ok w) : w.writable = true := by
  cases v with
  | bool b => cases done; exact writable_truth b
  | null => cases done; exact writable_truth false
  | str s => exact writable_numberOfText true done
  | _ => cases done; exact short

/-- Coercion to an integer keeps to what can be written. -/
theorem writable_toInteger (done : toInteger v = .ok w) : w.writable = true := by
  cases v with
  | bool b => cases done; exact writable_truth b
  | null => cases done; exact writable_truth false
  | str s => exact writable_numberOfText false done
  | float x =>
    unfold toInteger at done
    simp only at done
    split at done
    next i whole => cases done; exact writable_of_integral whole
    next => cases done; rfl
  | _ => cases done; exact short

/-- Coercion to a text gives a text, or the value itself. -/
theorem writable_toText (done : toText v = .ok w) : w.writable = true := by
  cases v with
  | null => cases done; rfl
  | bool b => cases done; rfl
  | int i => exact writable_wholeText done
  | float x =>
    unfold toText at done
    simp only at done
    split at done
    next => exact writable_wholeText done
    next => cases done; rfl
  | _ => cases done; exact short

theorem writable_toBoolean : (toBoolean v).writable = true := by
  unfold toBoolean
  split_ifs
  all_goals first | rfl | exact short

theorem writable_toNull : (toNull v).writable = true := by
  unfold toNull
  split_ifs
  · rfl
  · exact short

end Coercion

/-- Coercion brings in no integer of too many digits. -/
theorem writable_coerce {t : TypeName} {v w : Value} (short : v.writable = true)
    (done : coerce t v = .ok w) : w.writable = true := by
  unfold coerce at done
  split at done
  next => cases done; exact short
  next =>
    cases t with
    | number => exact Coercion.writable_toNumber short done
    | integer => exact Coercion.writable_toInteger short done
    | string => exact Coercion.writable_toText short done
    | boolean => cases done; exact Coercion.writable_toBoolean short
    | null => cases done; exact Coercion.writable_toNull short
    | array => cases done; exact short
    | object => cases done; exact short

/-- Coercion as the keywords ask for it keeps to what can be written. -/
theorem writable_coerced {h : Handling} {ks : List Keyword} {v w : Value}
    (short : v.writable = true) (done : coerced h ks v = .ok w) : w.writable = true := by
  unfold coerced at done
  split at done
  next => exact writable_coerce short done
  next => cases done; exact short

section Parts

variable {ks : List Keyword} (named : Schema.writableKeywords ks = true)

/-- A schema is writable when each of its keywords is … -/
theorem writableKeywords_iff {ks : List Keyword} :
    Schema.writableKeywords ks = true ↔ ∀ k ∈ ks, k.writable = true := by
  induction ks with
  | nil => simp [Schema.writableKeywords]
  | cons k rest ih => simp [Schema.writableKeywords, ih]

/-- … and its properties when each of their schemas is. -/
theorem writableProperties_iff {ps : List (String × Schema)} :
    Schema.writableProperties ps = true ↔ ∀ e ∈ ps, e.2.writable = true := by
  induction ps with
  | nil => simp [Schema.writableProperties]
  | cons e rest ih => simp [Schema.writableProperties, ih]

include named

/-- The schemas of the properties can be written if the keywords can. -/
theorem writable_properties : ∀ e ∈ Keyword.propertiesOf ks, e.2.writable = true := by
  unfold Keyword.propertiesOf
  cases found : ks.findSome? _ with
  | none => intro e inside; cases inside
  | some ps =>
    obtain ⟨k, member, here⟩ := List.exists_of_findSome?_eq_some found
    split at here
    next => cases here; exact writableProperties_iff.1 (writableKeywords_iff.1 named _ member)
    next => cases here

/-- The schema of the elements can be written if the keywords can. -/
theorem writable_element {s : Schema} (element : Keyword.itemsOf? ks = some s) :
    s.writable = true := by
  obtain ⟨k, member, here⟩ := List.exists_of_findSome?_eq_some element
  split at here
  next => cases here; exact writableKeywords_iff.1 named _ member
  next => cases here

/-- The default of a writable schema is a writable value. -/
theorem writable_default {w : Value} (default : Keyword.default? ks = some w) :
    w.writable = true := by
  obtain ⟨k, member, here⟩ := List.exists_of_findSome?_eq_some default
  split at here
  next => cases here; exact writableKeywords_iff.1 named _ member
  next => cases here

/-- What is filled in can be written if the schema can. -/
theorem writable_missingDefaults (fs : Fields Value) :
    ∀ e ∈ missingDefaults ks fs, e.2.writable = true := by
  rintro ⟨name, w⟩ inside
  obtain ⟨⟨other, s⟩, property, here⟩ := List.mem_filterMap.1 inside
  split at here
  next => cases here
  next =>
    obtain ⟨v, default, same⟩ := Option.map_eq_some_iff.1 here
    cases same
    have schema := writable_properties named _ property
    cases s with
    | document ls => exact writable_default schema default
    | _ => cases default

end Parts

/-- Preparation brings in no integer of too many digits either. -/
theorem writable_prepare {h : Handling} {s : Schema} : ∀ {v d : Value}, s.writable = true →
    v.writable = true → prepare h s v = .ok d → d.writable = true := by
  induction s using Schema.induct with
  | always => intro v d _ short done; cases done; exact short
  | never => intro v d _ short done; cases done; exact short
  | document ks properties items =>
    intro v d named short done
    replace named : Schema.writableKeywords ks = true := named
    rcases atomic_or ks v with ⟨fs, type, rfl⟩ | ⟨vs, type, rfl⟩ | atomic
    · obtain ⟨out, members, rfl⟩ := (prepare_object_ok_iff type).1 done
      apply Value.writableFields_iff.2
      rintro ⟨_, w⟩ inside
      rcases List.mem_append.1 inside with prepared | default
      · obtain ⟨⟨name, v⟩, source, same⟩ := exists_source_of_mapM_ok members prepared
        have before := Value.writableFields_iff.1 short _ (List.mem_of_mem_filter source)
        obtain ⟨rfl, here⟩ := prepareMember_ok_iff.1 same
        cases property : Fields.get? (Keyword.propertiesOf ks) name with
        | none => rw [property] at here; cases here; exact before
        | some s =>
          rw [property] at here
          have schema := writable_properties named _ (Fields.mem_of_get? property)
          exact properties name s property schema before here
      · exact writable_missingDefaults named out _ default
    · obtain ⟨out, list, rfl⟩ := (prepare_array_ok_iff type).1 done
      apply Value.writableAll_iff.2
      intro w inside
      obtain ⟨v, source, same⟩ := exists_source_of_mapM_ok list inside
      have before := Value.writableAll_iff.1 short v source
      cases element : Keyword.itemsOf? ks with
      | none => rw [element] at same; cases same; exact before
      | some s =>
        rw [element] at same
        exact items s element (writable_element named element) before same
    · rw [prepare_atomic h atomic] at done
      exact writable_coerced short done

namespace Validator

/-- **Without long numbers only texts are in the way.** If no integer of the schema and the payload
has too many digits, a payload is without an answer only for a text that is to be coerced. -/
theorem meetsOverlong_of_unanswerable {c : Validator} {payload : Value}
    (named : c.schema.writable = true) (short : payload.writable = true)
    (stuck : c.Unanswerable payload) :
    c.handling.coerceTypes = true ∧ MeetsOverlong c.schema payload := by
  rcases stuck with meets | ⟨d, prepared, e, inside, unwritable⟩
  · exact meets
  · have written := allWritable_check c.schema d named (writable_prepare named short prepared)
    rw [written e inside] at unwritable
    cases unwritable

end Validator

end Wire

end ShapeContract
