import Mathlib.Tactic.NormNum
import ShapeContract.Proofs.Double.Rounding

/-!
# The text of a double determines it

A decimal text denotes a rational number, and the text of a double denotes a point that rounds to
the double. As a point rounds to one double only, no two doubles have one text: `text_injective`.
-/

set_option autoImplicit false

namespace ShapeContract

namespace Decimal

/-- Digits after others shift those before. -/
theorem value_append (xs ys : List Char) : value (xs ++ ys) = value xs * 10 ^ ys.length + value ys := by
  induction ys using List.reverseRecOn with
  | nil => simp [value]
  | append_singleton ys c ih =>
    rw [← List.append_assoc, value_append_singleton, ih, value_append_singleton,
      List.length_append, List.length_singleton, Nat.pow_succ]
    ring

theorem value_zeros (n : Nat) : value (List.replicate n '0') = 0 := by
  induction n with
  | zero => rfl
  | succ n ih => rw [List.replicate_succ', value_append_singleton, ih]; rfl

/-- Whether a text is a run of digits. -/
def AllDigits (cs : List Char) : Prop := ∀ c ∈ cs, isDigit c = true

theorem allDigits_digits (n : Nat) : AllDigits (digits n) := List.all_eq_true.1 (all_isDigit_digits n)

theorem AllDigits.append {xs ys : List Char} (first : AllDigits xs) (second : AllDigits ys) :
    AllDigits (xs ++ ys) := by
  intro c member
  rcases List.mem_append.1 member with left | right
  · exact first c left
  · exact second c right

theorem allDigits_zeros (n : Nat) : AllDigits (List.replicate n '0') := by
  intro c member
  rw [List.eq_of_mem_replicate member]
  rfl

/-- Among digits there is no other character. -/
theorem AllDigits.notMem {cs : List Char} (digits : AllDigits cs) {c : Char}
    (other : isDigit c = false) : c ∉ cs := by
  intro member
  rw [digits c member] at other
  cases other

end Decimal

namespace Double

open Decimal (AllDigits value)

/-- The exponent that the end of a decimal text gives. -/
def exponentOf : List Char → Int
  | 'e' :: '-' :: ds => -(value ds : Int)
  | 'e' :: _ :: ds => value ds
  | _ => 0

/-- The number that a decimal text denotes. -/
def decimalOf (text : List Char) : ℚ :=
  let mantissa := text.takeWhile (· ≠ 'e')
  let whole := mantissa.takeWhile (· ≠ '.')
  let fraction := (mantissa.dropWhile (· ≠ '.')).drop 1
  value (whole ++ fraction) * 10 ^ (exponentOf (text.dropWhile (· ≠ 'e')) - fraction.length)

/-- What can follow the digits of a decimal text. -/
def IsExponent (cs : List Char) : Prop := cs = [] ∨ ∃ rest, cs = 'e' :: rest

/-- A text is cut at the first mark. -/
theorem takeWhile_append_of_notMem {mark : Char} {xs : List Char} (ys : List Char) (plain : mark ∉ xs)
    (stop : ys = [] ∨ ∃ rest, ys = mark :: rest) :
    (xs ++ ys).takeWhile (· ≠ mark) = xs ∧ (xs ++ ys).dropWhile (· ≠ mark) = ys := by
  have passes : ∀ c ∈ xs, decide (c ≠ mark) = true := by
    intro c member
    exact decide_eq_true fun same => plain (same ▸ member)
  rw [List.takeWhile_append_of_pos passes, List.dropWhile_append_of_pos passes]
  rcases stop with rfl | ⟨rest, rfl⟩ <;> simp

/-- The number of a text with a point: its digits, shifted by those after the point. -/
theorem decimalOf_point {whole fraction ex : List Char} (digitsW : AllDigits whole)
    (digitsF : AllDigits fraction) (ends : IsExponent ex) :
    decimalOf (whole ++ '.' :: fraction ++ ex) =
      value (whole ++ fraction) * 10 ^ (exponentOf ex - fraction.length) := by
  have noE : 'e' ∉ whole ++ '.' :: fraction := by
    simp [digitsW.notMem (c := 'e') rfl, digitsF.notMem (c := 'e') rfl]
  obtain ⟨mantissa, exponent⟩ := takeWhile_append_of_notMem ex noE ends
  obtain ⟨front, back⟩ := takeWhile_append_of_notMem ('.' :: fraction)
    (digitsW.notMem (c := '.') rfl) (Or.inr ⟨fraction, rfl⟩)
  unfold decimalOf
  simp only [mantissa, exponent, front, back, List.drop_one, List.tail_cons]

/-- The number of a text without a point. -/
theorem decimalOf_whole {whole ex : List Char} (digits : AllDigits whole) (ends : IsExponent ex) :
    decimalOf (whole ++ ex) = value whole * 10 ^ exponentOf ex := by
  obtain ⟨mantissa, exponent⟩ :=
    takeWhile_append_of_notMem ex (digits.notMem (c := 'e') rfl) ends
  obtain ⟨front, back⟩ := takeWhile_append_of_notMem []
    (digits.notMem (c := '.') rfl) (Or.inl rfl)
  rw [List.append_nil] at front back
  unfold decimalOf
  simp only [mantissa, exponent, front, back, List.drop_nil, List.append_nil, List.length_nil,
    Nat.cast_zero, sub_zero]

theorem exponentOf_plus (ds : List Char) : exponentOf ('e' :: '+' :: ds) = value ds := rfl

theorem exponentOf_minus (ds : List Char) : exponentOf ('e' :: '-' :: ds) = -(value ds : Int) := rfl

/-- The exponent that is written is read back. -/
theorem exponentOf_exponentText (e : Int) : exponentOf ('e' :: exponentText e) = e := by
  have padded : ∀ ds : List Char, value (if ds.length < 2 then '0' :: ds else ds) = value ds := by
    intro ds
    split <;> rfl
  have number := Decimal.value_digits e.natAbs
  unfold exponentText
  by_cases negative : e < 0
  · simp only [if_pos negative, exponentOf_minus, padded, number]
    omega
  · simp only [if_neg negative, exponentOf_plus, padded, number]
    omega

/-- Zeros between the point and the digits. -/
theorem decimalOf_below_one {ds : List Char} (digits : AllDigits ds) {e : Int} (negative : e < 0) :
    decimalOf ('0' :: '.' :: List.replicate ((-e).toNat - 1) '0' ++ ds) =
      value ds * 10 ^ (e + 1 - ds.length) := by
  have zero : AllDigits ['0'] := Decimal.allDigits_zeros 1
  have zeros := (Decimal.allDigits_zeros ((-e).toNat - 1)).append digits
  have written := decimalOf_point zero zeros (Or.inl rfl)
  have number : value (['0'] ++ (List.replicate ((-e).toNat - 1) '0' ++ ds)) = value ds := by
    have leading : value (['0'] ++ List.replicate ((-e).toNat - 1) '0') = 0 :=
      Decimal.value_zeros ((-e).toNat - 1 + 1)
    rw [← List.append_assoc, Decimal.value_append, leading]
    omega
  have places : exponentOf [] - ((List.replicate ((-e).toNat - 1) '0' ++ ds).length : Int) =
      e + 1 - ds.length := by
    simp only [List.length_append, List.length_replicate, exponentOf]
    omega
  rw [number, places, List.append_nil] at written
  exact written

/-- Zeros between the digits and the point, and one after it. -/
theorem decimalOf_padded {ds : List Char} (digits : AllDigits ds) {whole : Nat}
    (short : ds.length ≤ whole) :
    decimalOf (ds ++ List.replicate (whole - ds.length) '0' ++ ['.', '0']) =
      value ds * 10 ^ ((whole : Int) - ds.length) := by
  have front := digits.append (Decimal.allDigits_zeros (whole - ds.length))
  have written := decimalOf_point front (Decimal.allDigits_zeros 1) (Or.inl rfl)
  have number : value (ds ++ List.replicate (whole - ds.length) '0' ++ List.replicate 1 '0') =
      value ds * 10 ^ (whole - ds.length + 1) := by
    rw [List.append_assoc, List.replicate_append_replicate, Decimal.value_append,
      Decimal.value_zeros, List.length_replicate, Nat.add_zero]
  have places : (10 : ℚ) ^ (whole - ds.length + 1) *
      10 ^ (exponentOf [] - ((List.replicate 1 '0').length : Int)) =
      10 ^ ((whole : Int) - ds.length) := by
    rw [← zpow_natCast, ← zpow_add₀ (by norm_num)]
    congr 1
    simp only [exponentOf, List.length_replicate]
    omega
  rw [number, List.append_nil] at written
  push_cast at written
  rw [mul_assoc] at written
  refine written.trans ?_
  rw [← places]
  push_cast
  rfl

/-- The point among the digits. -/
theorem decimalOf_cut {ds : List Char} (digits : AllDigits ds) {whole : Nat}
    (long : whole ≤ ds.length) :
    decimalOf (ds.take whole ++ '.' :: ds.drop whole) =
      value ds * 10 ^ ((whole : Int) - ds.length) := by
  have front : AllDigits (ds.take whole) := fun c member => digits c (List.mem_of_mem_take member)
  have back : AllDigits (ds.drop whole) := fun c member => digits c (List.mem_of_mem_drop member)
  have written := decimalOf_point front back (Or.inl rfl)
  have places : exponentOf [] - ((ds.drop whole).length : Int) = (whole : Int) - ds.length := by
    simp only [List.length_drop, exponentOf]
    omega
  rw [List.take_append_drop, places, List.append_nil] at written
  exact written

/-- One digit before the point, or no point at all, and an exponent. -/
theorem decimalOf_scientific {ds : List Char} (digits : AllDigits ds) {e : Int}
    (far : (e < -4 || e ≥ 16) = true) :
    decimalOf (layout ds e) = value ds * 10 ^ (e + 1 - ds.length) := by
  have tail : IsExponent ('e' :: exponentText e) := Or.inr ⟨_, rfl⟩
  unfold layout
  rw [if_pos far]
  match ds with
  | [] => simp [decimalOf, value]
  | [d] =>
    have written := decimalOf_whole digits tail
    rw [exponentOf_exponentText] at written
    simpa using written
  | d :: c :: rest =>
    have first : AllDigits [d] := fun x member => digits x (by simp_all)
    have others : AllDigits (c :: rest) := fun x member => digits x (List.mem_cons_of_mem _ member)
    have written := decimalOf_point first others tail
    rw [exponentOf_exponentText] at written
    have places : e + 1 - ((d :: c :: rest).length : Int) = e - ((c :: rest).length : Int) := by
      simp only [List.length_cons]
      omega
    rw [places]
    exact written

/-- **The layout of digits denotes their number**, whichever form is chosen. -/
theorem decimalOf_layout {ds : List Char} (digits : AllDigits ds) (e : Int) :
    decimalOf (layout ds e) = value ds * 10 ^ (e + 1 - ds.length) := by
  by_cases far : (e < -4 || e ≥ 16) = true
  · exact decimalOf_scientific digits far
  · unfold layout
    rw [if_neg far]
    by_cases negative : e < 0
    · rw [if_pos negative]
      exact decimalOf_below_one digits negative
    · have places : ((e.toNat + 1 : Nat) : Int) - ds.length = e + 1 - ds.length := by omega
      rw [if_neg negative]
      simp only
      split
      next short => rw [decimalOf_padded digits short, places]
      next long => rw [decimalOf_cut digits (by omega), places]

/-- Only zeros at the end are taken away. -/
theorem stripZeros_spec (ds : List Char) :
    ∃ zeros, ds = stripZeros ds ++ List.replicate zeros '0' := by
  induction ds with
  | nil => exact ⟨0, rfl⟩
  | cons c rest ih =>
    obtain ⟨zeros, split⟩ := ih
    unfold stripZeros
    cases stripped : stripZeros rest with
    | nil =>
      rw [stripped, List.nil_append] at split
      by_cases zero : c = '0'
      · exact ⟨zeros + 1, by simp [zero, split, List.replicate_succ]⟩
      · exact ⟨zeros, by simp [zero, split]⟩
    | cons d more => exact ⟨zeros, by rw [stripped] at split; simp [split]⟩

/-- The significant digits of a positive number of units denote a point that rounds to it. -/
theorem shortest_spec {units : Nat} (rep : Representable units) (pos : 0 < units) :
    AllDigits (shortest units).1 ∧ RoundsTo units
      (value (shortest units).1 *
        10 ^ ((shortest units).2 + 1 - ((shortest units).1.length : Int)) * one) := by
  have reads := (readsBack_iff rep pos _ _).1 (search_readsBack rep pos)
  unfold shortest
  generalize search units (leadingExponent units) 17 1 = found at reads
  obtain ⟨c, g⟩ := found
  obtain ⟨zeros, split⟩ := stripZeros_spec (Decimal.digits c)
  have digits : AllDigits (stripZeros (Decimal.digits c)) := by
    have all := Decimal.allDigits_digits c
    rw [split] at all
    exact fun x member => all x (List.mem_append_left _ member)
  have number : c = value (stripZeros (Decimal.digits c)) * 10 ^ zeros := by
    conv_lhs => rw [← Decimal.value_digits c, split]
    rw [Decimal.value_append, Decimal.value_zeros, List.length_replicate, Nat.add_zero]
  have length : (Decimal.digits c).length = (stripZeros (Decimal.digits c)).length + zeros := by
    conv_lhs => rw [split]
    rw [List.length_append, List.length_replicate]
  refine ⟨digits, ?_⟩
  have places : g + ((Decimal.digits c).length : Int) - 1 + 1 -
      (stripZeros (Decimal.digits c)).length = zeros + g := by omega
  have point : decimalPoint c g =
      value (stripZeros (Decimal.digits c)) * 10 ^ ((zeros : Int) + g) * one := by
    unfold decimalPoint
    conv_lhs => rw [number]
    push_cast
    rw [zpow_add₀ (by norm_num), zpow_natCast]
    ring
  simp only
  rw [places, ← point]
  exact reads

/-- A positive double does not round to zero. -/
theorem not_roundsTo_zero {units : Nat} (rep : Representable units) (pos : 0 < units) :
    ¬ RoundsTo units 0 := by
  intro rounds
  obtain ⟨_, _, _, least⟩ := representable_bounds rep pos
  have narrow : marginBelow units < 4 * units := by
    rcases marginBelow_cases units with ⟨width, _⟩ | ⟨width, _⟩ <;> omega
  have narrow : (marginBelow units : ℚ) < 4 * units := by exact_mod_cast narrow
  linarith [rounds.bounds.1]

/-- A positive double has a digit at least. -/
theorem shortest_ne_nil {units : Nat} (rep : Representable units) (pos : 0 < units) :
    (shortest units).1 ≠ [] := by
  intro nothing
  have rounds := (shortest_spec rep pos).2
  rw [nothing, show value [] = 0 from rfl, Nat.cast_zero, zero_mul, zero_mul] at rounds
  exact not_roundsTo_zero rep pos rounds

/-- The text of a number of units without its sign. -/
def body (units : Nat) : List Char :=
  if units = 0 then ['0', '.', '0'] else layout (shortest units).1 (shortest units).2

/-- The text of a finite double is its body after a sign. -/
theorem text_finite (negative : Bool) (units : Nat) (rep : Representable units) :
    (Double.finite negative units rep).text =
      String.ofList (if negative then '-' :: body units else body units) := rfl

/-- The number that the text of a positive number of units denotes rounds to it. -/
theorem roundsTo_body {units : Nat} (rep : Representable units) (pos : 0 < units) :
    RoundsTo units (decimalOf (body units) * one) := by
  obtain ⟨digits, rounds⟩ := shortest_spec rep pos
  rw [body, if_neg (by omega), decimalOf_layout digits]
  exact rounds

theorem decimalOf_body_zero : decimalOf (body 0) = 0 := by
  have written := decimalOf_point (Decimal.allDigits_zeros 1) (Decimal.allDigits_zeros 1)
    (Or.inl rfl)
  rw [List.replicate_append_replicate, Decimal.value_zeros, Nat.cast_zero, zero_mul] at written
  exact written

/-- Doubles with one text are one double: the text names a number that rounds to it. -/
theorem body_injective {u v : Nat} (repU : Representable u) (repV : Representable v)
    (same : body u = body v) : u = v := by
  have apart : ∀ w, Representable w → 0 < w → body w ≠ body 0 := by
    intro w rep pos zero
    have rounds := roundsTo_body rep pos
    rw [zero, decimalOf_body_zero, zero_mul] at rounds
    exact not_roundsTo_zero rep pos rounds
  rcases Nat.eq_zero_or_pos u with rfl | posU
  · rcases Nat.eq_zero_or_pos v with rfl | posV
    · rfl
    · exact absurd same.symm (apart v repV posV)
  · rcases Nat.eq_zero_or_pos v with rfl | posV
    · exact absurd same (apart u repU posU)
    · have toU := roundsTo_body repU posU
      have toV := roundsTo_body repV posV
      rw [same] at toU
      exact eq_of_roundsTo repU repV posU posV toU toV

/-- The characters of a decimal text. -/
def IsNumberChar (c : Char) : Prop := Decimal.isDigit c = true ∨ c ∈ ['.', 'e', '+', '-']

theorem allDigits_numberChars {cs : List Char} (digits : AllDigits cs) : ∀ c ∈ cs, IsNumberChar c :=
  fun c member => Or.inl (digits c member)

theorem exponentText_numberChars (e : Int) : ∀ c ∈ exponentText e, IsNumberChar c := by
  have digits := Decimal.allDigits_digits e.natAbs
  intro c member
  unfold exponentText at member
  rcases List.mem_cons.1 member with rfl | later
  · by_cases negative : e < 0 <;> simp [negative, IsNumberChar]
  · split at later
    · rcases List.mem_cons.1 later with rfl | digit
      · exact Or.inl rfl
      · exact Or.inl (digits c digit)
    · exact Or.inl (digits c later)

/-- A decimal text starts with a digit, and a point or an exponent comes later. -/
def IsDecimalText (cs : List Char) : Prop :=
  (∃ d rest, cs = d :: rest ∧ Decimal.isDigit d = true) ∧ ('.' ∈ cs ∨ 'e' ∈ cs) ∧
    ∀ c ∈ cs, IsNumberChar c

/-- However digits are laid out, a point or an exponent shows. -/
theorem isDecimalText_layout {ds : List Char} (digits : AllDigits ds) (some : ds ≠ []) (e : Int) :
    IsDecimalText (layout ds e) := by
  have chars := allDigits_numberChars digits
  have zeros : ∀ n, ∀ c ∈ List.replicate n '0', IsNumberChar c :=
    fun n => allDigits_numberChars (Decimal.allDigits_zeros n)
  have exponent := exponentText_numberChars e
  have point : IsNumberChar '.' := Or.inr (by decide)
  have mark : IsNumberChar 'e' := Or.inr (by decide)
  obtain ⟨d, rest, rfl⟩ := List.exists_cons_of_ne_nil some
  have first : Decimal.isDigit d = true := digits d List.mem_cons_self
  unfold layout
  split
  · cases rest with
    | nil =>
      refine ⟨⟨d, _, rfl, first⟩, Or.inr (by simp), ?_⟩
      simp only [List.forall_mem_cons]
      exact ⟨Or.inl first, mark, exponent⟩
    | cons c more =>
      refine ⟨⟨d, _, rfl, first⟩, Or.inl (by simp), ?_⟩
      simp only [List.cons_append, List.forall_mem_cons, List.forall_mem_append] at chars ⊢
      exact ⟨chars.1, point, chars.2.1, chars.2.2, mark, exponent⟩
  · split
    · refine ⟨⟨'0', _, rfl, rfl⟩, Or.inl (by simp), ?_⟩
      simp only [List.cons_append, List.forall_mem_cons, List.forall_mem_append]
      exact ⟨Or.inl rfl, point, zeros _, List.forall_mem_cons.1 chars⟩
    · simp only
      split
      · refine ⟨⟨d, _, rfl, first⟩, Or.inl (by simp), ?_⟩
        simp only [List.forall_mem_append, List.forall_mem_cons]
        exact ⟨⟨List.forall_mem_cons.1 chars, zeros _⟩, point, Or.inl rfl, by simp⟩
      · refine ⟨⟨d, _, rfl, first⟩, Or.inl (by simp), ?_⟩
        simp only [List.forall_mem_append, List.forall_mem_cons]
        exact ⟨fun c member => chars c (List.mem_of_mem_take member), point,
          fun c member => chars c (List.mem_of_mem_drop member)⟩

/-- The text of a double shows a point or an exponent. -/
theorem isDecimalText_body {units : Nat} (rep : Representable units) :
    IsDecimalText (body units) := by
  rcases Nat.eq_zero_or_pos units with rfl | pos
  · exact ⟨⟨'0', _, rfl, rfl⟩, Or.inl (by decide), by simp [body, IsNumberChar, Decimal.isDigit]⟩
  · rw [body, if_neg (by omega)]
    exact isDecimalText_layout (shortest_spec rep pos).1 (shortest_ne_nil rep pos) _

/-- **No two finite doubles have one text**; zero and negative zero are two doubles. -/
theorem finite_text_injective {n m : Bool} {u v : Nat} {repU : Representable u}
    {repV : Representable v} (same : (Double.finite n u repU).text = (Double.finite m v repV).text) :
    Double.finite n u repU = Double.finite m v repV := by
  have unsigned : ∀ w, Representable w → (body w).head? ≠ some '-' := by
    intro w rep minus
    obtain ⟨⟨d, rest, shape, digit⟩, _⟩ := isDecimalText_body rep
    rw [shape, List.head?_cons, Option.some.injEq] at minus
    rw [minus] at digit
    cases digit
  rw [text_finite, text_finite, String.ofList_inj] at same
  have parts : n = m ∧ body u = body v := by
    cases n <;> cases m <;> simp only [Bool.false_eq_true, if_true, if_false] at same
    · exact ⟨rfl, same⟩
    · exact absurd (same ▸ rfl) (unsigned u repU)
    · exact absurd (same ▸ rfl) (unsigned v repV)
    · exact ⟨rfl, (List.cons.inj same).2⟩
  obtain ⟨rfl, bodies⟩ := parts
  have units := body_injective repU repV bodies
  subst units
  rfl

end Double

end ShapeContract
