import Mathlib.Algebra.Order.Field.Power
import Mathlib.Data.Rat.Cast.Order
import Mathlib.Tactic.FieldSimp
import Mathlib.Tactic.Linarith
import Mathlib.Tactic.Positivity
import Mathlib.Tactic.Ring
import ShapeContract.Double.Shortest

/-!
# Rounding intervals

Every double owns the interval of the points that round to it. Two intervals have no point in common
(`eq_of_roundsTo`), and seventeen digits are fine enough for every interval to hold a point of the
grid, so the search for the shortest digits finds a point that reads back: `search_readsBack`.
-/

set_option autoImplicit false

namespace ShapeContract.Double

/-- The gap between a number of units and the next representable one above it. -/
def gap (units : Nat) : Nat := powerOfTwo (units.log2 - 52)

/-- The margin below, in quarter units. -/
def marginBelow (units : Nat) : Nat := (margins units).1

theorem powerOfTwo_pos (n : Nat) : 0 < powerOfTwo n := Nat.pow_pos (by decide)

/-- Neighbouring doubles are a positive distance apart. -/
theorem gap_pos (units : Nat) : 0 < gap units := powerOfTwo_pos _

/-- The upper margin is half the gap, in quarters of a unit. -/
theorem marginAbove_eq (units : Nat) : (margins units).2 = 2 * gap units := by
  unfold margins gap
  simp only
  split <;> rfl

/-- The margin below is as wide as the one above, but half as wide at a power of two. -/
theorem marginBelow_cases (units : Nat) :
    (marginBelow units = gap units ∧ 0 < units.log2 - 52 ∧ units = powerOfTwo units.log2) ∨
      (marginBelow units = 2 * gap units ∧
        ¬ (0 < units.log2 - 52 ∧ units = powerOfTwo units.log2)) := by
  unfold marginBelow margins gap
  by_cases power : units.log2 - 52 > 0 ∧ units = powerOfTwo units.log2
  · exact Or.inl ⟨by simp [← power.2, power.1], power⟩
  · exact Or.inr ⟨by simp only [if_neg power], power⟩

/-- Above the subnormals the leading power of two is `2 ^ 52` gaps. -/
theorem gap_mul_of_large {units : Nat} (large : 0 < units.log2 - 52) :
    powerOfTwo units.log2 = 4503599627370496 * gap units := by
  have split : units.log2 = 52 + (units.log2 - 52) := by omega
  unfold gap powerOfTwo
  rw [Nat.pow_eq, Nat.pow_eq]
  conv_lhs => rw [split]
  rw [Nat.pow_add]

/-- What 53 significant bits say of a positive number of units. -/
theorem representable_bounds {units : Nat} (rep : Representable units) (pos : 0 < units) :
    units = units / gap units * gap units ∧ units < 9007199254740992 * gap units ∧
      (0 < units.log2 - 52 → 4503599627370496 * gap units ≤ units) ∧ gap units ≤ units := by
  have whole : units = units / gap units * gap units :=
    (Nat.div_mul_cancel (Nat.dvd_of_mod_eq_zero rep.2)).symm
  have low : powerOfTwo units.log2 ≤ units := Nat.log2_self_le (by omega)
  have high : units < 2 * powerOfTwo units.log2 := by
    have := Nat.lt_log2_self (n := units)
    simpa [powerOfTwo, Nat.pow_succ, Nat.mul_comm] using this
  by_cases large : 0 < units.log2 - 52
  · have power := gap_mul_of_large large
    exact ⟨whole, by omega, fun _ => by omega, by omega⟩
  · have one : gap units = 1 := by
      unfold gap
      rw [show units.log2 - 52 = 0 by omega]
      rfl
    have small : powerOfTwo units.log2 ≤ 4503599627370496 := by
      have := Nat.pow_le_pow_right (n := 2) (by decide) (show units.log2 ≤ 52 by omega)
      simpa [powerOfTwo] using this
    exact ⟨whole, by omega, fun l => absurd l large, by omega⟩

/-- Whether the significand is even: then both ends of the interval belong to it. -/
def IsEven (units : Nat) : Prop := units / gap units % 2 = 0

instance (units : Nat) : Decidable (IsEven units) := inferInstanceAs (Decidable (_ = _))

/-- Gaps grow by doubling. -/
theorem gap_cases {u v : Nat} (less : u < v) :
    gap u = gap v ∨ 2 * gap u = gap v ∧ 0 < v.log2 - 52 ∨ 4 * gap u ≤ gap v ∧ 0 < v.log2 - 52 := by
  have logs : u.log2 ≤ v.log2 := by
    by_cases zero : u = 0
    · simp [zero]
    · exact (Nat.le_log2 (by omega)).2 (le_trans (Nat.log2_self_le zero) (le_of_lt less))
  rcases Nat.lt_or_ge (u.log2 - 52) (v.log2 - 52) with further | same
  · obtain ⟨more, step⟩ := Nat.exists_eq_add_of_lt further
    right
    cases more with
    | zero =>
      refine Or.inl ⟨?_, by omega⟩
      unfold gap powerOfTwo
      rw [step, Nat.pow_eq, Nat.pow_eq, Nat.add_zero, Nat.pow_succ, Nat.mul_comm]
    | succ more =>
      refine Or.inr ⟨?_, by omega⟩
      unfold gap powerOfTwo
      rw [step, Nat.pow_eq, Nat.pow_eq, show u.log2 - 52 + (more + 1) + 1 = u.log2 - 52 + 2 + more by
        omega, Nat.pow_add, Nat.pow_add]
      have pos : 0 < 2 ^ more := Nat.pow_pos (by decide)
      calc 4 * 2 ^ (u.log2 - 52) = 2 ^ (u.log2 - 52) * 2 ^ 2 := Nat.mul_comm _ _
        _ ≤ 2 ^ (u.log2 - 52) * 2 ^ 2 * 2 ^ more := Nat.le_mul_of_pos_right _ pos
  · left
    unfold gap
    rw [show u.log2 - 52 = v.log2 - 52 by omega]

/-- **Intervals of neighbours only touch**, and then one of the two does not own the end. -/
theorem margins_disjoint {u v : Nat} (repU : Representable u) (repV : Representable v)
    (pos : 0 < u) (less : u < v) :
    4 * u + 2 * gap u + marginBelow v ≤ 4 * v ∧
      (4 * u + 2 * gap u + marginBelow v = 4 * v → IsEven u → ¬ IsEven v) := by
  obtain ⟨wholeU, highU, _, _⟩ := representable_bounds repU pos
  obtain ⟨wholeV, highV, lowV, _⟩ := representable_bounds repV (by omega)
  have posGap := gap_pos u
  generalize sigU : u / gap u = m at wholeU
  generalize sigV : v / gap v = n at wholeV
  unfold IsEven
  rw [sigU, sigV]
  -- Whole multiples of one gap are a gap apart.
  have below : u + gap u ≤ 9007199254740992 * gap u := by
    have : m < 9007199254740992 := by
      by_contra large
      have := Nat.mul_le_mul_right (gap u) (not_lt.1 large)
      omega
    have := Nat.mul_le_mul_right (gap u) (Nat.succ_le_of_lt this)
    rw [Nat.succ_mul] at this
    omega
  rcases gap_cases less with same | ⟨double, large⟩ | ⟨wide, large⟩
  · have apart : m < n := by
      by_contra order
      have := Nat.mul_le_mul_right (gap u) (not_lt.1 order)
      rw [← same] at wholeV
      omega
    have next := Nat.mul_le_mul_right (gap u) (Nat.succ_le_of_lt apart)
    rw [Nat.succ_mul] at next
    have margin : marginBelow v ≤ 2 * gap u := by
      rcases marginBelow_cases v with ⟨width, _⟩ | ⟨width, _⟩ <;> omega
    rw [← same] at wholeV
    refine ⟨by omega, ?_⟩
    intro touching even odd
    have neighbours : n * gap u = (m + 1) * gap u := by
      rw [Nat.succ_mul]
      omega
    have := Nat.eq_of_mul_eq_mul_right posGap neighbours
    omega
  · have least := lowV large
    have power := gap_mul_of_large large
    rcases marginBelow_cases v with ⟨width, _, isPower⟩ | ⟨width, noPower⟩
    · refine ⟨by omega, ?_⟩
      intro touching even _
      have last : m * gap u = 9007199254740991 * gap u := by omega
      have := Nat.eq_of_mul_eq_mul_right posGap last
      omega
    · have above : 4503599627370496 * gap v + gap v ≤ v := by
        have strict : 4503599627370496 < n := by
          by_contra order
          have := Nat.mul_le_mul_right (gap v) (not_lt.1 order)
          exact noPower ⟨large, by omega⟩
        have := Nat.mul_le_mul_right (gap v) (Nat.succ_le_of_lt strict)
        rw [Nat.succ_mul] at this
        omega
      exact ⟨by omega, by omega⟩
  · have least := lowV large
    have width : marginBelow v ≤ 2 * gap v := by
      rcases marginBelow_cases v with ⟨width, _⟩ | ⟨width, _⟩ <;> omega
    exact ⟨by omega, by omega⟩

/-- Whether a point, counted in units, rounds to a number of units. -/
def RoundsTo (units : Nat) (point : ℚ) : Prop :=
  if IsEven units then
    4 * (units : ℚ) - marginBelow units ≤ 4 * point ∧ 4 * point ≤ 4 * units + 2 * gap units
  else 4 * (units : ℚ) - marginBelow units < 4 * point ∧ 4 * point < 4 * units + 2 * gap units

/-- A point that rounds to a double lies within its margins, whichever way ties go. -/
theorem RoundsTo.bounds {units : Nat} {point : ℚ} (rounds : RoundsTo units point) :
    4 * (units : ℚ) - marginBelow units ≤ 4 * point ∧ 4 * point ≤ 4 * units + 2 * gap units := by
  unfold RoundsTo at rounds
  split at rounds
  · exact rounds
  · exact ⟨le_of_lt rounds.1, le_of_lt rounds.2⟩

/-- No point rounds to two different doubles: the upper margin of the smaller ends where the lower
margin of the larger begins. -/
theorem not_lt_of_roundsTo {u v : Nat} {point : ℚ} (repU : Representable u)
    (repV : Representable v) (pos : 0 < u) (toU : RoundsTo u point) (toV : RoundsTo v point) :
    ¬ u < v := by
  intro less
  obtain ⟨apart, ends⟩ := margins_disjoint repU repV pos less
  have apart' : (4 * u + 2 * gap u + marginBelow v : ℚ) ≤ 4 * v := by exact_mod_cast apart
  have upper := toU.bounds.2
  have lower := toV.bounds.1
  have touching : 4 * u + 2 * gap u + marginBelow v = 4 * v := by
    have : (4 * u + 2 * gap u + marginBelow v : ℚ) = 4 * v := by linarith
    exact_mod_cast this
  by_cases even : IsEven u
  · have odd := ends touching even
    unfold RoundsTo at toV
    rw [if_neg odd] at toV
    linarith [toV.1]
  · unfold RoundsTo at toU
    rw [if_neg even] at toU
    linarith [toU.2]

/-- **A point rounds to one number of units only.** -/
theorem eq_of_roundsTo {u v : Nat} {point : ℚ} (repU : Representable u) (repV : Representable v)
    (posU : 0 < u) (posV : 0 < v) (toU : RoundsTo u point) (toV : RoundsTo v point) : u = v := by
  have notLess := not_lt_of_roundsTo repU repV posU toU toV
  have notMore := not_lt_of_roundsTo repV repU posV toV toU
  omega

/-- The point `c · 10 ^ g` in units. -/
def decimalPoint (c : Nat) (g : Int) : ℚ := c * 10 ^ g * one

theorem one_pos : 0 < one := powerOfTwo_pos 1074

/-- The lower margin never reaches past zero. -/
theorem marginBelow_le {units : Nat} (rep : Representable units) (pos : 0 < units) :
    marginBelow units ≤ 4 * units := by
  obtain ⟨_, _, _, least⟩ := representable_bounds rep pos
  rcases marginBelow_cases units with ⟨width, _⟩ | ⟨width, _⟩ <;> omega

theorem powerOfTen_cast (n : Nat) : (Decimal.powerOfTen n : ℚ) = 10 ^ n := by
  simp [Decimal.powerOfTen]

theorem powerOfTen_pos (n : Nat) : 0 < Decimal.powerOfTen n := Nat.pow_pos (by decide)

/-- The two halves of the sign test on the exponent: scaling up by a natural power … -/
theorem zpow_of_nonneg {g : Int} (up : g ≥ 0) : (10 : ℚ) ^ g = 10 ^ g.toNat := by
  conv_lhs => rw [← Int.toNat_of_nonneg up]
  exact zpow_natCast _ _

/-- … and scaling down by one. -/
theorem zpow_mul_of_neg {g : Int} (down : ¬ g ≥ 0) : (10 : ℚ) ^ g * 10 ^ (-g).toNat = 1 := by
  have turned : ((-g).toNat : Int) = -g := Int.toNat_of_nonneg (by omega)
  rw [← zpow_natCast, turned, ← zpow_add₀ (by norm_num), add_neg_cancel, zpow_zero]

/-- The test compares whole numbers: the point and the ends of the interval, scaled alike. -/
theorem readsBack_scaled (units c : Nat) (g : Int) :
    ∃ point scale : Nat, 0 < scale ∧ (point : ℚ) = 4 * decimalPoint c g * scale ∧
      readsBack units c g =
        if IsEven units then
          (4 * units - marginBelow units) * scale ≤ point &&
            point ≤ (4 * units + 2 * gap units) * scale
        else
          (4 * units - marginBelow units) * scale < point &&
            point < (4 * units + 2 * gap units) * scale := by
  have above := marginAbove_eq units
  by_cases up : g ≥ 0
  · refine ⟨c * Decimal.powerOfTen g.toNat * (4 * one), 1, Nat.one_pos, ?_, ?_⟩
    · unfold decimalPoint
      rw [zpow_of_nonneg up]
      push_cast [powerOfTen_cast]
      ring
    · unfold readsBack IsEven
      simp only [if_pos up, ← above]
      rfl
  · refine ⟨c * (4 * one), Decimal.powerOfTen (-g).toNat, powerOfTen_pos _, ?_, ?_⟩
    · have power := zpow_mul_of_neg up
      unfold decimalPoint
      push_cast [powerOfTen_cast]
      calc (c : ℚ) * (4 * one) = 4 * (c * one) * (10 ^ g * 10 ^ (-g).toNat) := by rw [power]; ring
        _ = 4 * (c * 10 ^ g * one) * 10 ^ (-g).toNat := by ring
    · unfold readsBack IsEven
      simp only [if_neg up, ← above]
      rfl

/-- The integer test for reading back is rounding of the decimal point it stands for. -/
theorem readsBack_iff {units : Nat} (rep : Representable units) (pos : 0 < units) (c : Nat)
    (g : Int) : readsBack units c g = true ↔ RoundsTo units (decimalPoint c g) := by
  obtain ⟨point, scale, posScale, scaled, test⟩ := readsBack_scaled units c g
  have posScale : (0 : ℚ) < scale := by exact_mod_cast posScale
  have lower : (((4 * units - marginBelow units) * scale : Nat) : ℚ) =
      (4 * units - marginBelow units) * scale := by
    push_cast [Nat.cast_sub (marginBelow_le rep pos)]
    ring
  have upper : (((4 * units + 2 * gap units) * scale : Nat) : ℚ) =
      (4 * units + 2 * gap units) * scale := by push_cast; ring
  rw [test]
  unfold RoundsTo
  split
  · rw [Bool.and_eq_true, decide_eq_true_eq, decide_eq_true_eq, ← Nat.cast_le (α := ℚ),
      ← Nat.cast_le (α := ℚ), lower, upper, scaled, mul_le_mul_iff_left₀ posScale,
      mul_le_mul_iff_left₀ posScale]
  · rw [Bool.and_eq_true, decide_eq_true_eq, decide_eq_true_eq, ← Nat.cast_lt (α := ℚ),
      ← Nat.cast_lt (α := ℚ), lower, upper, scaled, mul_lt_mul_iff_left₀ posScale,
      mul_lt_mul_iff_left₀ posScale]

/-- A point below a double that does not round to it lies outside the lower margin. -/
theorem le_of_not_roundsTo {units : Nat} {point : ℚ} (misses : ¬ RoundsTo units point)
    (low : point ≤ units) : 4 * point ≤ 4 * units - marginBelow units := by
  have wide : (0 : ℚ) < gap units := by exact_mod_cast gap_pos units
  by_contra inside
  apply misses
  unfold RoundsTo
  split <;> constructor <;> linarith

/-- A point above a double that does not round to it lies outside the upper margin. -/
theorem ge_of_not_roundsTo {units : Nat} {point : ℚ} (misses : ¬ RoundsTo units point)
    (high : units < point) : 4 * units + 2 * gap units ≤ 4 * point := by
  have wide : (0 : ℚ) ≤ marginBelow units := by exact_mod_cast Nat.zero_le _
  by_contra inside
  apply misses
  unfold RoundsTo
  split <;> constructor <;> linarith

/-- The quotient and its successor are the two grid points around the double. -/
theorem decimalPoint_around {units num den : Nat} {g : Int} {scale : ℚ} (posDen : 0 < den)
    (posScale : 0 < scale) (numerator : (num : ℚ) = units * scale)
    (denominator : (den : ℚ) = 10 ^ g * one * scale) :
    decimalPoint (num / den) g ≤ units ∧ units < decimalPoint (num / den + 1) g := by
  have low : ((num / den : Nat) : ℚ) * den ≤ num := by exact_mod_cast Nat.div_mul_le_self num den
  have high : (num : ℚ) < ((num / den + 1 : Nat) : ℚ) * den := by
    exact_mod_cast Nat.lt_mul_of_div_lt (Nat.lt_succ_self (num / den)) posDen
  have point : ∀ c : Nat, (c : ℚ) * den = decimalPoint c g * scale := by
    intro c
    rw [denominator]
    unfold decimalPoint
    ring
  rw [point, numerator] at low high
  exact ⟨le_of_mul_le_mul_right low posScale, lt_of_mul_lt_mul_right high (le_of_lt posScale)⟩

/-- A number of units, in steps of the grid, is a fraction. -/
theorem onGrid?_eq {units num den : Nat} {g : Int}
    (isNum : (if g ≥ 0 then units else units * Decimal.powerOfTen (-g).toNat) = num)
    (isDen : (if g ≥ 0 then one * Decimal.powerOfTen g.toNat else one) = den) :
    onGrid? units g =
      match readsBack units (num / den) g, readsBack units (num / den + 1) g with
      | true, true => some (nearest num den)
      | true, false => some (num / den)
      | false, true => some (num / den + 1)
      | false, false => none := by
  subst isNum isDen
  unfold onGrid?
  rfl

/-- The grid points around a number of units. -/
theorem grid_around (units : Nat) (g : Int) :
    ∃ num den : Nat, decimalPoint (num / den) g ≤ units ∧
      units < decimalPoint (num / den + 1) g ∧
      onGrid? units g =
        match readsBack units (num / den) g, readsBack units (num / den + 1) g with
        | true, true => some (nearest num den)
        | true, false => some (num / den)
        | false, true => some (num / den + 1)
        | false, false => none := by
  by_cases up : g ≥ 0
  · have posDen : 0 < one * Decimal.powerOfTen g.toNat := Nat.mul_pos one_pos (powerOfTen_pos _)
    have numerator : (units : ℚ) = units * 1 := by ring
    have denominator : ((one * Decimal.powerOfTen g.toNat : Nat) : ℚ) = 10 ^ g * one * 1 := by
      rw [zpow_of_nonneg up]
      push_cast [powerOfTen_cast]
      ring
    have around := decimalPoint_around posDen zero_lt_one numerator denominator
    exact ⟨_, _, around.1, around.2, onGrid?_eq (if_pos up) (if_pos up)⟩
  · have posScale : (0 : ℚ) < 10 ^ (-g).toNat := by positivity
    have numerator : ((units * Decimal.powerOfTen (-g).toNat : Nat) : ℚ) =
        units * 10 ^ (-g).toNat := by push_cast [powerOfTen_cast]; ring
    have denominator : (one : ℚ) = 10 ^ g * one * 10 ^ (-g).toNat := by
      rw [mul_right_comm, zpow_mul_of_neg up, one_mul]
    have around := decimalPoint_around one_pos posScale numerator denominator
    exact ⟨_, _, around.1, around.2, onGrid?_eq (if_neg up) (if_neg up)⟩

/-- The nearest grid point is the quotient or its successor. -/
theorem nearest_cases (num den : Nat) : nearest num den = num / den ∨ nearest num den = num / den + 1 := by
  unfold nearest
  simp only
  split
  · exact Or.inl rfl
  split
  · exact Or.inr rfl
  split
  · exact Or.inl rfl
  · exact Or.inr rfl

/-- A candidate found on a grid reads back as the double. -/
theorem onGrid?_readsBack {units c : Nat} {g : Int} (found : onGrid? units g = some c) :
    readsBack units c g = true := by
  obtain ⟨num, den, _, _, chosen⟩ := grid_around units g
  rw [chosen] at found
  split at found
  next first second =>
    rcases nearest_cases num den with same | same
    · rw [← Option.some.inj found, same, first]
    · rw [← Option.some.inj found, same, second]
  next first _ => rw [← Option.some.inj found, first]
  next _ second => rw [← Option.some.inj found, second]
  next => cases found

/-- **A fine grid has a point in every interval**: between the two points around a number there is
no room for the whole interval. -/
theorem onGrid?_of_fine {units : Nat} {g : Int} (rep : Representable units) (pos : 0 < units)
    (fine : 10 ^ 16 * (10 ^ g * one) ≤ (units : ℚ)) : ∃ c, onGrid? units g = some c := by
  obtain ⟨num, den, low, high, chosen⟩ := grid_around units g
  by_contra nothing
  have misses : readsBack units (num / den) g ≠ true ∧ readsBack units (num / den + 1) g ≠ true := by
    rw [chosen] at nothing
    cases first : readsBack units (num / den) g <;>
      cases second : readsBack units (num / den + 1) g <;> simp [first, second] at nothing ⊢
  have first := le_of_not_roundsTo (mt (readsBack_iff rep pos _ _).2 misses.1) low
  have second := ge_of_not_roundsTo (mt (readsBack_iff rep pos _ _).2 misses.2) high
  have step : decimalPoint (num / den + 1) g = decimalPoint (num / den) g + 10 ^ g * one := by
    unfold decimalPoint
    push_cast
    ring
  have room : (2 * gap units + marginBelow units : ℚ) * 10 ^ 16 ≤ 4 * units := by
    rw [step] at second
    linarith
  have room : (2 * gap units + marginBelow units) * 10 ^ 16 ≤ 4 * units := by exact_mod_cast room
  obtain ⟨_, bound, _, _⟩ := representable_bounds rep pos
  have posGap := gap_pos units
  rcases marginBelow_cases units with ⟨width, large, power⟩ | ⟨width, _⟩
  · have size := gap_mul_of_large large
    omega
  · omega

/-- A run of digits is as long as the number is large. -/
theorem pow_length_digits_le {n : Nat} (pos : 0 < n) :
    10 ^ ((Decimal.digits n).length - 1) ≤ n := by
  induction n using Nat.strongRecOn with
  | _ n ih =>
    rw [Decimal.digits]
    split
    next => simpa using Nat.succ_le_of_lt pos
    next large =>
      have shorter := ih (n / 10) (by omega) (by omega)
      have some : 0 < (Decimal.digits (n / 10)).length := by
        rw [Decimal.digits]
        split <;> simp
      rw [List.length_append, List.length_singleton, Nat.add_sub_cancel]
      calc 10 ^ (Decimal.digits (n / 10)).length
          = 10 ^ ((Decimal.digits (n / 10)).length - 1) * 10 := by
            rw [← Nat.pow_succ, Nat.succ_eq_add_one, Nat.sub_add_cancel some]
        _ ≤ n / 10 * 10 := Nat.mul_le_mul_right 10 shorter
        _ ≤ n := Nat.div_mul_le_self n 10

theorem length_digits_pos (n : Nat) : 0 < (Decimal.digits n).length := by
  rw [Decimal.digits]
  split <;> simp

/-- The leading digit of a quotient, found after a shift that makes it at least one. -/
theorem leading_digit_le {units unit shift : Nat} (pos : 0 < units) (posUnit : 0 < unit)
    (large : unit ≤ Decimal.powerOfTen shift) :
    10 ^ (((Decimal.digits (units * Decimal.powerOfTen shift / unit)).length : Int) - (shift + 1)) *
      unit ≤ (units : ℚ) := by
  have positive : 0 < units * Decimal.powerOfTen shift / unit :=
    Nat.div_pos (le_trans large (Nat.le_mul_of_pos_left _ pos)) posUnit
  have digits := pow_length_digits_le positive
  have some := length_digits_pos (units * Decimal.powerOfTen shift / unit)
  generalize (Decimal.digits (units * Decimal.powerOfTen shift / unit)).length = n at digits some ⊢
  have whole : 10 ^ (n - 1) * unit ≤ units * Decimal.powerOfTen shift :=
    le_trans (Nat.mul_le_mul_right unit digits) (Nat.div_mul_le_self _ _)
  have scaled : (10 : ℚ) ^ (n - 1) * unit ≤ units * 10 ^ shift := by
    rw [← powerOfTen_cast]
    exact_mod_cast whole
  have moved : (10 : ℚ) ^ ((n : Int) - (shift + 1)) * 10 ^ shift = 10 ^ (n - 1) := by
    rw [← zpow_natCast, ← zpow_natCast, ← zpow_add₀ (by norm_num)]
    congr 1
    omega
  have posShift : (0 : ℚ) < 10 ^ shift := by positivity
  refine le_of_mul_le_mul_right ?_ posShift
  rw [mul_right_comm, moved]
  exact scaled

/-- A positive number of units is at least the power of ten of its leading digit. -/
theorem leadingExponent_le {units : Nat} (pos : 0 < units) :
    10 ^ leadingExponent units * one ≤ (units : ℚ) := by
  have large : one ≤ Decimal.powerOfTen 400 := by decide +kernel
  exact leading_digit_le pos one_pos large

theorem search_succ (units : Nat) (e : Int) (fuel count : Nat) :
    search units e (fuel + 1) count =
      match onGrid? units (e - count + 1) with
      | some c => (c, e - count + 1)
      | none => search units e fuel (count + 1) := rfl

/-- Seventeen digits are enough: if the finest grid has a candidate, the search returns one that
reads back. -/
theorem search_readsBack_of {units : Nat} {e : Int} (last : ∃ c, onGrid? units (e - 16) = some c)
    (fuel count : Nat) (reached : count ≤ 17) (enough : 17 < count + fuel) :
    readsBack units (search units e fuel count).1 (search units e fuel count).2 = true := by
  induction fuel generalizing count with
  | zero => omega
  | succ fuel ih =>
    rw [search_succ]
    cases found : onGrid? units (e - count + 1) with
    | some c => exact onGrid?_readsBack found
    | none =>
      have early : count ≠ 17 := by
        intro isLast
        obtain ⟨c, there⟩ := last
        have same : e - count + 1 = e - 16 := by omega
        rw [same, there] at found
        cases found
      exact ih (count + 1) (by omega) (by omega)

/-- **The search finds digits that read back.** -/
theorem search_readsBack {units : Nat} (rep : Representable units) (pos : 0 < units) :
    readsBack units (search units (leadingExponent units) 17 1).1
      (search units (leadingExponent units) 17 1).2 = true := by
  refine search_readsBack_of (onGrid?_of_fine rep pos ?_) 17 1 (by omega) (by omega)
  have leading := leadingExponent_le pos
  have shift : (10 : ℚ) ^ 16 * 10 ^ (leadingExponent units - 16) = 10 ^ leadingExponent units := by
    rw [← zpow_natCast, ← zpow_add₀ (by norm_num)]
    congr 1
    push_cast
    ring
  rw [← mul_assoc, shift]
  exact leading

end ShapeContract.Double
