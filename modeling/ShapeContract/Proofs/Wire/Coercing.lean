import ShapeContract.Proofs.Double.Rounding
import ShapeContract.Wire.Coercion

/-!
# What coercion answers

Coercion fails on numbers with too many digits and on nothing else: a text of them for a number,
an integer of them for a text. Any other value is left as it is or gets the type, so to coerce once
more changes nothing: `coerce_brings`.
-/

set_option autoImplicit false

namespace ShapeContract

namespace Text

/-- No digit is a blank, in any script. -/
theorem isNumberBlank_of_isDecimal {c : Char} (digit : isDecimal c = true) :
    isNumberBlank c = false := by
  have runs : ∀ z ∈ decimalZeros, 1632 ≤ z ∧ z + 10 ≤ 5760 ∨ 5761 ≤ z ∧ z + 10 ≤ 8192 ∨
      12289 ≤ z ∨ z = 48 := by decide
  suffices blank : isBlank c = false by simp [isNumberBlank, blank]
  obtain ⟨d, digit⟩ := Option.isSome_iff_exists.1 digit
  unfold isBlank
  simp only [Bool.or_eq_false_iff, Bool.and_eq_false_iff, decide_eq_false_iff_not]
  simp only [decimalValue?] at digit
  split at digit
  next ascii =>
    split at digit
    next within => omega
    next => cases digit
  next high =>
    obtain ⟨z, found, -⟩ := Option.map_eq_some_iff.1 digit
    have run := runs z (List.mem_of_find?_eq_some found)
    have within := List.find?_some found
    simp only [Bool.and_eq_true, decide_eq_true_eq] at within
    omega

theorem dropBlanks_of_free {cs : List Char} (free : ∀ c ∈ cs, isNumberBlank c = false) :
    dropBlanks cs = cs := by
  cases cs with
  | nil => rfl
  | cons c rest => rw [dropBlanks, if_neg (by simp [free c List.mem_cons_self])]

/-- A numeral without blanks is read as it stands. -/
theorem trimNumber_of_free {cs : List Char} (free : ∀ c ∈ cs, isNumberBlank c = false) :
    trimNumber cs = cs := by
  rw [trimNumber, dropBlanks_of_free free,
    dropBlanks_of_free fun c inside => free c (List.mem_reverse.1 inside), List.reverse_reverse]

/-- Decimal digits on their own are a run. -/
theorem digitRun?_of_decimal {cs : List Char} (any : cs ≠ [])
    (all : ∀ c ∈ cs, isDecimal c = true) : digitRun? cs = some (digitsOf cs) := by
  induction cs using digitRun?.induct with
  | case1 => exact absurd rfl any
  | case2 c =>
    obtain ⟨d, value⟩ := Option.isSome_iff_exists.1 (all c List.mem_cons_self)
    simp [digitRun?, digitsOf, value]
  | case3 c rest _ =>
    have underscore : isDecimal '_' = false := by decide
    exact absurd (all '_' (by simp)) (by simp [underscore])
  | case4 c rest single joined ih =>
    obtain ⟨d, value⟩ := Option.isSome_iff_exists.1 (all c List.mem_cons_self)
    have run := ih single fun c inside => all c (List.mem_cons_of_mem _ inside)
    rw [digitRun?, value, run]
    · simp [digitsOf, value]
    · exact single
    · exact joined

theorem length_digitsOf {cs : List Char} (all : ∀ c ∈ cs, isDecimal c = true) :
    (digitsOf cs).length = cs.length := by
  induction cs with
  | nil => rfl
  | cons c rest ih =>
    obtain ⟨first, later⟩ := List.forall_mem_cons.1 all
    obtain ⟨d, value⟩ := Option.isSome_iff_exists.1 first
    rw [digitsOf, List.filterMap_cons_some value, List.length_cons, List.length_cons]
    exact congrArg (· + 1) (ih later)

/-- A sign is set off, or there is none. -/
theorem splitSign_cases (cs : List Char) :
    (∃ sign, (sign = '-' ∨ sign = '+') ∧ cs = sign :: (splitSign cs).2) ∨
      (splitSign cs).2 = cs := by
  unfold splitSign
  split
  · exact .inl ⟨'-', .inl rfl, rfl⟩
  · exact .inl ⟨'+', .inr rfl, rfl⟩
  · exact .inr rfl

/-- A whole numeral holds signs and digits only. -/
theorem free_of_isWholeForm {cs : List Char} (whole : isWholeForm cs = true) :
    ∀ c ∈ cs, isNumberBlank c = false := by
  have digits : ∀ c ∈ (splitSign cs).2, isNumberBlank c = false := by
    unfold isWholeForm at whole
    intro c inside
    simp only [Bool.and_eq_true, List.all_eq_true] at whole
    exact isNumberBlank_of_isDecimal (whole.2 c inside)
  obtain ⟨sign, kind, split⟩ | none := splitSign_cases cs
  · rw [split]
    intro c inside
    rcases List.mem_cons.1 inside with rfl | later
    · rcases kind with rfl | rfl <;> decide
    · exact digits c later
  · exact none ▸ digits

/-- Whether a text is a whole number of too many digits. -/
def overlong (cs : List Char) : Bool :=
  isWholeForm cs && digitLimit < (splitSign cs).2.length

/-- A text in whole form denotes an integer unless it is too long. -/
theorem wholeNumber?_of_isWholeForm {cs : List Char} (whole : isWholeForm cs = true) :
    (wholeNumber? cs).isSome = !overlong cs := by
  have parts := whole
  unfold isWholeForm at parts
  simp only [Bool.and_eq_true, Bool.not_eq_true', List.isEmpty_eq_false_iff,
    List.all_eq_true] at parts
  have run := digitRun?_of_decimal parts.1 parts.2
  unfold wholeNumber? overlong
  rw [trimNumber_of_free (free_of_isWholeForm whole)]
  simp only [run, length_digitsOf parts.2, whole, Bool.true_and]
  by_cases long : digitLimit < (splitSign cs).2.length <;> simp [long]

end Text

namespace Double

theorem powerOfTwo_add (m n : Nat) : powerOfTwo (m + n) = powerOfTwo m * powerOfTwo n :=
  Nat.pow_add 2 m n

/-- Comparing by powers of ten is enough to count digits. -/
theorem powerOfTwo_le (n : Nat) : powerOfTwo n ≤ 10 ^ n := Nat.pow_le_pow_left (by decide) n

theorem limit_eq : limit = powerOfTwo 1024 * one := by
  unfold limit one
  rw [← powerOfTwo_add]

/-- The whole number that a double is lies below `2^1024`. -/
theorem natAbs_integral_lt {x : Double} {i : Int} (whole : x.integral? = some i) :
    i.natAbs < powerOfTwo 1024 := by
  cases x with
  | nan => cases whole
  | infinite negative => cases whole
  | finite negative u representable =>
    have below : u / one < powerOfTwo 1024 :=
      (Nat.div_lt_iff_lt_mul one_pos).2 (lt_of_lt_of_eq representable.1 limit_eq)
    rw [integral?] at whole
    split at whole
    next =>
      cases whole
      split
      · rwa [Int.natAbs_neg, Int.natAbs_natCast]
      · exact below
    next => cases whole

/-- A finite double has at most some three hundred digits, well within the limit on texts. -/
theorem length_digits_integral {x : Double} {i : Int} (whole : x.integral? = some i) :
    (Decimal.digits i.natAbs).length ≤ Text.digitLimit := by
  have limit : 1024 < Text.digitLimit := by decide
  rcases Nat.eq_zero_or_pos i.natAbs with none | some
  · rw [none, Decimal.digits]
    decide
  · have digits := pow_length_digits_le some
    have below := (natAbs_integral_lt whole).trans_le (powerOfTwo_le 1024)
    have short := (Nat.pow_lt_pow_iff_right (by decide)).1 (digits.trans_lt below)
    omega

end Double

namespace Wire

/-- Whether coercion to the type needs a number that has too many digits. -/
def TypeName.overlong : TypeName → Value → Bool
  | .number, .str s => Text.overlong (Text.trim s.toList)
  | .integer, .str s => Text.overlong (Text.trim s.toList)
  | .string, .int i => Text.digitLimit < (Decimal.digits i.natAbs).length
  | _, _ => false

/-- A coerced value: as it was, or of the type. -/
def Settled (t : TypeName) (v : Value) (answer : Except Failure Value) : Prop :=
  ∃ w, answer = .ok w ∧ (w = v ∨ t.settles w = true)

namespace Coercion

/-- An integer short enough to print becomes its text. -/
theorem wholeText_settled {i : Int} (v : Value)
    (short : (Decimal.digits i.natAbs).length ≤ Text.digitLimit) :
    Settled .string v (wholeText i) :=
  ⟨.str (Decimal.signed i), if_neg (Nat.not_lt.2 short), .inr rfl⟩

/-- Past the limit on digits the conversion itself fails, it does not leave the text. -/
theorem numberOfText_overlong (fractional : Bool) {s : String}
    (long : Text.overlong (Text.trim s.toList) = true) :
    numberOfText fractional s = .error .valueMisuse := by
  have whole : Text.isWholeForm (Text.trim s.toList) = true := by
    simp only [Text.overlong, Bool.and_eq_true] at long
    exact long.1
  have none := Text.wholeNumber?_of_isWholeForm whole
  rw [long, Bool.not_true, Option.isSome_eq_false_iff, Option.isNone_iff_eq_none] at none
  simp only [numberOfText, whole, if_true, wholeOf, none]

/-- A text that is not too long gives an integer, a double where one is wanted, or stays. -/
theorem numberOfText_cases (fractional : Bool) {s : String}
    (short : Text.overlong (Text.trim s.toList) = false) :
    (∃ i, numberOfText fractional s = .ok (.int i)) ∨
      (fractional = true ∧ ∃ x, numberOfText fractional s = .ok (.float x)) ∨
      numberOfText fractional s = .ok (.str s) := by
  unfold numberOfText
  simp only
  split
  next whole =>
    have some := Text.wholeNumber?_of_isWholeForm whole
    rw [short, Bool.not_false] at some
    obtain ⟨i, value⟩ := Option.isSome_iff_exists.1 some
    exact .inl ⟨i, by rw [wholeOf, value]⟩
  next =>
    split
    next x _ => exact .inr (.inl ⟨rfl, x, rfl⟩)
    next => exact .inr (.inr rfl)

/-- Each target answers on what is short enough: with a value of its type, or with the value as it
stood. -/
theorem toNumber_settled {v : Value} (short : TypeName.number.overlong v = false) :
    Settled .number v (toNumber v) := by
  cases v with
  | bool b => exact ⟨_, rfl, .inr rfl⟩
  | null => exact ⟨_, rfl, .inr rfl⟩
  | str s =>
    obtain ⟨i, done⟩ | ⟨-, x, done⟩ | done := numberOfText_cases true short
    · exact ⟨_, done, .inr rfl⟩
    · exact ⟨_, done, .inr rfl⟩
    · exact ⟨_, done, .inl rfl⟩
  | _ => exact ⟨_, rfl, .inl rfl⟩

theorem toInteger_settled {v : Value} (short : TypeName.integer.overlong v = false) :
    Settled .integer v (toInteger v) := by
  cases v with
  | bool b => exact ⟨_, rfl, .inr rfl⟩
  | null => exact ⟨_, rfl, .inr rfl⟩
  | str s =>
    obtain ⟨i, done⟩ | ⟨never, -⟩ | done := numberOfText_cases false short
    · exact ⟨_, done, .inr rfl⟩
    · cases never
    · exact ⟨_, done, .inl rfl⟩
  | float x =>
    unfold toInteger
    simp only
    split
    next i _ => exact ⟨_, rfl, .inr rfl⟩
    next => exact ⟨_, rfl, .inl rfl⟩
  | _ => exact ⟨_, rfl, .inl rfl⟩

theorem toText_settled {v : Value} (short : TypeName.string.overlong v = false) :
    Settled .string v (toText v) := by
  cases v with
  | null => exact ⟨_, rfl, .inr rfl⟩
  | bool b => exact ⟨_, rfl, .inr rfl⟩
  | int i => exact wholeText_settled _ (Nat.not_lt.1 (of_decide_eq_false short))
  | float x =>
    unfold toText
    simp only
    split
    next i whole => exact wholeText_settled _ (Double.length_digits_integral whole)
    next => exact ⟨_, rfl, .inr rfl⟩
  | _ => exact ⟨_, rfl, .inl rfl⟩

theorem toBoolean_settled (v : Value) : Settled .boolean v (.ok (toBoolean v)) := by
  refine ⟨toBoolean v, rfl, ?_⟩
  unfold toBoolean
  split_ifs
  all_goals first | exact .inr rfl | exact .inl rfl

theorem toNull_settled (v : Value) : Settled .null v (.ok (toNull v)) := by
  refine ⟨toNull v, rfl, ?_⟩
  unfold toNull
  split_ifs
  · exact .inr rfl
  · exact .inl rfl

end Coercion

open Coercion

/-- What has the type is no number of too many digits. -/
theorem settles_of_overlong {t : TypeName} {v : Value} (long : t.overlong v = true) :
    t.settles v = false := by
  cases t <;> cases v <;> first | rfl | cases long

/-- An overlong integer or numeral is the one input on which coercion fails. -/
theorem coerce_overlong {t : TypeName} {v : Value} (long : t.overlong v = true) :
    coerce t v = .error .valueMisuse := by
  unfold coerce
  rw [if_neg (by simp [settles_of_overlong long])]
  cases t with
  | number =>
    cases v with
    | str s => exact numberOfText_overlong true long
    | _ => cases long
  | integer =>
    cases v with
    | str s => exact numberOfText_overlong false long
    | _ => cases long
  | string =>
    cases v with
    | int i => exact if_pos (of_decide_eq_true long)
    | _ => cases long
  | _ => cases long

/-- On every other input coercion answers, and what it answers is settled for the type. -/
theorem coerce_settled {t : TypeName} {v : Value} (short : t.overlong v = false) :
    Settled t v (coerce t v) := by
  unfold coerce
  split
  next => exact ⟨v, rfl, .inl rfl⟩
  next =>
    cases t with
    | number => exact toNumber_settled short
    | integer => exact toInteger_settled short
    | string => exact toText_settled short
    | boolean => exact toBoolean_settled v
    | null => exact toNull_settled v
    | array => exact ⟨v, rfl, .inl rfl⟩
    | object => exact ⟨v, rfl, .inl rfl⟩

/-- **Coercion fails on numbers of too many digits alone**, and then in one way. -/
theorem coerce_error_iff {t : TypeName} {v : Value} {e : Failure} :
    coerce t v = .error e ↔ e = .valueMisuse ∧ t.overlong v = true := by
  cases long : t.overlong v with
  | true => rw [coerce_overlong long]; simp [eq_comm]
  | false =>
    obtain ⟨w, done, -⟩ := coerce_settled long
    simp [done]

/-- An answer of coercion: the value as it was, or a value of the type. -/
theorem brought_of_coerce {t : TypeName} {v w : Value} (done : coerce t v = .ok w) :
    w = v ∨ t.settles w = true := by
  cases long : t.overlong v with
  | true => rw [coerce_overlong long] at done; cases done
  | false =>
    obtain ⟨w', same, brought⟩ := coerce_settled long
    cases done.symm.trans same
    exact brought

/-- A value already of its type is left alone. -/
theorem coerce_of_settles {t : TypeName} {v : Value} (settles : t.settles v = true) :
    coerce t v = .ok v := if_pos settles

/-- **To coerce a coerced value changes nothing.** -/
theorem coerce_coerced {t : TypeName} {v w : Value} (done : coerce t v = .ok w) :
    coerce t w = .ok w := by
  rcases brought_of_coerce done with rfl | settles
  · exact done
  · exact coerce_of_settles settles

/-- Lists and mappings are never coerced themselves, their parts are. -/
theorem coerce_list (t : TypeName) (vs : List Value) : coerce t (.list vs) = .ok (.list vs) := by
  cases t <;> rfl

theorem coerce_mapping {v : Value} (mapping : v.isMapping = true) (t : TypeName) :
    coerce t v = .ok v := by
  cases v <;> cases mapping <;> cases t <;> rfl

/-- **Coercion brings a value to the type or leaves it alone**, and lets what has the type, lists and
mappings be. It answers unless a number has too many digits, and an answer is coerced to itself. -/
theorem coerce_brings (t : TypeName) (v : Value) :
    ((∃ w, coerce t v = .ok w) ↔ t.overlong v = false) ∧
      (∀ w, coerce t v = .ok w → (w = v ∨ t.settles w = true) ∧ coerce t w = .ok w) ∧
      (t.settles v = true ∨ (∃ vs, v = .list vs) ∨ v.isMapping = true → coerce t v = .ok v) := by
  refine ⟨⟨?_, ?_⟩, fun w done => ⟨brought_of_coerce done, coerce_coerced done⟩, ?_⟩
  · rintro ⟨w, done⟩
    by_contra long
    rw [coerce_overlong (Bool.not_eq_false _ ▸ long)] at done
    cases done
  · intro short
    obtain ⟨w, done, -⟩ := coerce_settled short
    exact ⟨w, done⟩
  · rintro (settles | ⟨vs, rfl⟩ | mapping)
    · exact coerce_of_settles settles
    · exact coerce_list t vs
    · exact coerce_mapping mapping t

end Wire

end ShapeContract
