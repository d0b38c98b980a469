import ShapeContract.Proofs.Double.Text
import ShapeContract.Proofs.Text.Trimmed
import ShapeContract.Proofs.Wire.Coercing

/-!
# Numbers as texts

A numeral is an integer as it may be written: blanks, a sign or none, decimal digits with any zeros in
front, blanks. Coercion to a number or to an integer reads it as just that integer; and the text that
an integer is coerced to is a numeral, so the integer is read back: `Wire.coerce_numeral`.
-/

set_option autoImplicit false

namespace ShapeContract

namespace Text

open Decimal (AllDigits)

/-- What may stand in front of the digits, and whether it makes the number negative. -/
inductive IsSign : List Char → Bool → Prop
  | none : IsSign [] false
  | plus : IsSign ['+'] false
  | minus : IsSign ['-'] true

/-- The texts that an integer may be written as. -/
inductive Denotes : String → Int → Prop
  | mk {before sign ds after : List Char} {negative : Bool} (leading : IsBlankText before)
      (signed : IsSign sign negative) (any : ds ≠ []) (digits : AllDigits ds)
      (short : ds.length ≤ 4300) (trailing : IsBlankText after) :
      Denotes (String.ofList (before ++ (sign ++ ds) ++ after))
        (if negative then -(Decimal.value ds : Int) else Decimal.value ds)

variable {sign ds : List Char} {negative : Bool}

/-! ## Digits -/

theorem decimalValue?_of_isDigit {c : Char} (digit : Decimal.isDigit c = true) :
    decimalValue? c = some (Decimal.digitValue c) := by
  simp only [Decimal.isDigit, Bool.and_eq_true, decide_eq_true_eq] at digit
  have ascii : c.toNat < 128 := by omega
  simp only [decimalValue?, if_pos ascii, if_pos digit, Decimal.digitValue]

theorem isDecimal_of_isDigit {c : Char} (digit : Decimal.isDigit c = true) : isDecimal c = true := by
  rw [isDecimal, decimalValue?_of_isDigit digit]
  rfl

theorem digitsOf_of_allDigits (digits : AllDigits ds) : digitsOf ds = ds.map Decimal.digitValue := by
  induction ds with
  | nil => rfl
  | cons c rest ih =>
    obtain ⟨first, later⟩ := List.forall_mem_cons.1 digits
    rw [digitsOf, List.filterMap_cons_some (decimalValue?_of_isDigit first), List.map_cons]
    exact congrArg _ (ih later)

/-- Values of digits make the number that the digits denote. -/
theorem valueOf_digitsOf (digits : AllDigits ds) : valueOf (digitsOf ds) = Decimal.value ds := by
  rw [digitsOf_of_allDigits digits, valueOf, List.foldl_map]
  rfl

theorem isBlank_of_isDigit {c : Char} (digit : Decimal.isDigit c = true) : isBlank c = false := by
  simp only [Decimal.isDigit, Bool.and_eq_true, decide_eq_true_eq] at digit
  simp only [isBlank, Bool.or_eq_false_iff, Bool.and_eq_false_iff, decide_eq_false_iff_not]
  omega

/-! ## Signs -/

theorem splitSign_of_digits (digits : AllDigits ds) : splitSign ds = (false, ds) := by
  unfold splitSign
  split
  · cases digits '-' List.mem_cons_self
  · cases digits '+' List.mem_cons_self
  · rfl

/-- The sign is set off from the digits. -/
theorem IsSign.split (signed : IsSign sign negative) (digits : AllDigits ds) :
    splitSign (sign ++ ds) = (negative, ds) := by
  cases signed with
  | none => exact splitSign_of_digits digits
  | plus => rfl
  | minus => rfl

theorem IsSign.notBlank (signed : IsSign sign negative) : ∀ c ∈ sign, Text.isBlank c = false := by
  cases signed with
  | none => exact List.forall_mem_nil _
  | plus => exact List.forall_mem_singleton.2 rfl
  | minus => exact List.forall_mem_singleton.2 rfl

theorem IsSign.isTight (signed : IsSign sign negative) (any : ds ≠ []) (digits : AllDigits ds) :
    IsTight (sign ++ ds) := by
  have free : ∀ c ∈ sign ++ ds, Text.isBlank c = false := by
    intro c inside
    rcases List.mem_append.1 inside with left | right
    · exact signed.notBlank c left
    · exact isBlank_of_isDigit (digits c right)
  constructor
  · exact List.append_ne_nil_of_right_ne_nil sign any
  · exact fun c first => free c (List.mem_of_mem_head? first)
  · exact fun c last => free c (List.mem_of_mem_getLast? last)

theorem IsSign.isWholeForm (signed : IsSign sign negative) (any : ds ≠ []) (digits : AllDigits ds) :
    Text.isWholeForm (sign ++ ds) = true := by
  simp only [Text.isWholeForm, signed.split digits, Bool.and_eq_true, List.all_eq_true,
    Bool.not_eq_true', List.isEmpty_eq_false_iff]
  exact ⟨any, fun c inside => isDecimal_of_isDigit (digits c inside)⟩

/-- A sign and digits are read as the number that they denote. -/
theorem IsSign.wholeNumber? (signed : IsSign sign negative) (any : ds ≠ []) (digits : AllDigits ds)
    (short : ds.length ≤ digitLimit) : Text.wholeNumber? (sign ++ ds) =
      some (if negative then -(Decimal.value ds : Int) else Decimal.value ds) := by
  have decimals : ∀ c ∈ ds, isDecimal c = true := fun c inside =>
    isDecimal_of_isDigit (digits c inside)
  unfold Text.wholeNumber?
  rw [trimNumber_of_free (free_of_isWholeForm (signed.isWholeForm any digits)), signed.split digits]
  simp only [digitRun?_of_decimal any decimals]
  rw [if_neg (Nat.not_lt.2 (length_digitsOf decimals ▸ short)), valueOf_digitsOf digits]

/-- The text of an integer denotes it. -/
theorem denotes_signed {i : Int} (short : (Decimal.digits i.natAbs).length ≤ 4300) :
    Denotes (Decimal.signed i) i := by
  have digits := Decimal.allDigits_digits i.natAbs
  have any := List.ne_nil_of_length_pos (Double.length_digits_pos i.natAbs)
  have blank : IsBlankText [] := fun _ => nofun
  have value := Decimal.value_digits i.natAbs
  cases i with
  | ofNat n =>
    have written := Denotes.mk blank .none any digits short blank
    rw [value, List.append_nil] at written
    exact written
  | negSucc n =>
    have written := Denotes.mk blank .minus any digits short blank
    rw [value, List.append_nil] at written
    exact written

end Text

namespace Wire

open Text (Denotes)

/-- A numeral is read as its integer, whether or not fractions are wanted. -/
theorem Coercion.numberOfText_of_denotes {s : String} {i : Int} (written : Denotes s i)
    (fractional : Bool) : numberOfText fractional s = .ok (.int i) := by
  obtain ⟨leading, signed, any, digits, short, trailing⟩ := written
  unfold numberOfText
  rw [String.toList_ofList, Text.trim_padded leading trailing (signed.isTight any digits)]
  simp only [signed.isWholeForm any digits, if_true, wholeOf, signed.wholeNumber? any digits short]

/-- **Numbers survive their texts.** An integer of at most 4300 digits is coerced to a text which is
coerced to the integer; and so is any other text that denotes an integer. -/
theorem coerce_numeral :
    (∀ i : Int, (Decimal.digits i.natAbs).length ≤ 4300 →
      ∃ s, coerce .string (.int i) = .ok (.str s) ∧
        coerce .number (.str s) = .ok (.int i) ∧ coerce .integer (.str s) = .ok (.int i)) ∧
      ∀ s i, Denotes s i →
        coerce .number (.str s) = .ok (.int i) ∧ coerce .integer (.str s) = .ok (.int i) := by
  have read : ∀ s i, Denotes s i →
      coerce .number (.str s) = .ok (.int i) ∧ coerce .integer (.str s) = .ok (.int i) :=
    fun s i written => ⟨Coercion.numberOfText_of_denotes written true,
      Coercion.numberOfText_of_denotes written false⟩
  refine ⟨fun i short => ?_, read⟩
  have written : coerce .string (.int i) = .ok (.str (Decimal.signed i)) := if_neg (Nat.not_lt.2 short)
  exact ⟨_, written, read _ _ (Text.denotes_signed short)⟩

end Wire

end ShapeContract
