import Mathlib.Algebra.Order.Ring.Int
import Mathlib.Data.Prod.Lex
import Mathlib.Data.String.Basic
import ShapeContract.Proofs.Double.Rounding
import ShapeContract.Value.Order

/-!
# Values with ranks

Orders in which things are before one another as their ranks are, and how such orders are put
together: turned around, read off a part, one after the other. Numbers are ordered so whatever their
type, with the one exception that is no number, and so are texts.
-/

set_option autoImplicit false

namespace ShapeContract

/-! ## Orders of ranks -/

/-- Some ranks in a linear order say which of two things is before the other and which are level. -/
def Ranked {α : Type} (fit : α → Prop) (before level : α → α → Prop) : Prop :=
  ∃ (β : Type) (_ : LinearOrder β) (rank : α → β), ∀ a, fit a → ∀ b, fit b →
    (before a b ↔ rank a < rank b) ∧ (level a b ↔ rank a = rank b)

namespace Ranked

variable {α γ : Type} {fit : α → Prop} {before before' level level' : α → α → Prop} {a b : α}

/-- Ranks make the order asymmetric … -/
theorem asymm (ranked : Ranked fit before level) (here : fit a) (there : fit b)
    (first : before a b) : ¬ before b a := by
  obtain ⟨β, _, rank, told⟩ := ranked
  rw [(told b there a here).1]
  exact lt_asymm ((told a here b there).1.1 first)

/-- … and being level is being neither before nor after. -/
theorem level_iff (ranked : Ranked fit before level) (here : fit a) (there : fit b) :
    level a b ↔ ¬ before a b ∧ ¬ before b a := by
  obtain ⟨β, _, rank, told⟩ := ranked
  rw [(told a here b there).2, (told a here b there).1, (told b there a here).1, not_lt, not_lt,
    le_antisymm_iff]
  exact and_comm

/-- The reversed order is ranked too, by the opposite of the ranks. -/
theorem flip (ranked : Ranked fit before level) : Ranked fit (fun a b => before b a) level := by
  obtain ⟨β, _, rank, told⟩ := ranked
  refine ⟨βᵒᵈ, inferInstance, fun a => OrderDual.toDual (rank a), fun a here b there => ⟨?_, ?_⟩⟩
  · exact (told b there a here).1
  · exact (told a here b there).2

/-- An order read through a function is ranked by the ranks of its values. -/
theorem comap {f : γ → α} {fit' : γ → Prop} (ranked : Ranked fit before level)
    (fits : ∀ c, fit' c → fit (f c)) :
    Ranked fit' (fun c d => before (f c) (f d)) fun c d => level (f c) (f d) := by
  obtain ⟨β, _, rank, told⟩ := ranked
  exact ⟨β, _, fun c => rank (f c), fun c here d there => told _ (fits c here) _ (fits d there)⟩

/-- What is level in a first order is ranked by a second one. -/
theorem thenBy (first : Ranked fit before level) (second : Ranked fit before' level') :
    Ranked fit (fun a b => before a b ∨ (level a b ∧ before' a b))
      fun a b => level a b ∧ level' a b := by
  obtain ⟨β, _, rank, told⟩ := first
  obtain ⟨β', _, rank', told'⟩ := second
  refine ⟨β ×ₗ β', inferInstance, fun a => toLex (rank a, rank' a), fun a here b there => ⟨?_, ?_⟩⟩
  · simp only [told a here b there, told' a here b there, Prod.Lex.toLex_lt_toLex]
  · simp only [told a here b there, told' a here b there, toLex_inj, Prod.mk.injEq]

end Ranked

/-! ## Numbers and texts -/

namespace Double.Rank

/-- The integers between what is before and what is after all of them. -/
def place : Rank → ℤ ×ₗ ℤ
  | .bottom => toLex (-1, 0)
  | .at a => toLex (0, a)
  | .top => toLex (1, 0)

/-- Ranks of doubles compare as pairs of class and size, so the infinities need no case of their
own. -/
theorem lt_iff_place (r s : Rank) : r.lt s = true ↔ r.place < s.place := by
  cases r <;> cases s <;> simp [lt, place, Prod.Lex.toLex_lt_toLex]

theorem place_inj (r s : Rank) : r = s ↔ r.place = s.place := by
  cases r <;> cases s <;> simp [place]

end Double.Rank

namespace Number

variable {x y : Number} {r s : Double.Rank}

/-- Integers and doubles compare through one rank, exactly and without rounding. -/
theorem lt_eq_rank (left : x.rank? = some r) (right : y.rank? = some s) : x.lt y = r.lt s := by
  cases x with
  | int i =>
    cases y with
    | int j =>
      cases left
      cases right
      rw [lt, Double.Rank.ofInt, Double.Rank.ofInt, Double.Rank.lt, decide_eq_decide]
      exact (mul_lt_mul_iff_left₀ (Int.natCast_pos.2 Double.one_pos)).symm
    | double d => simp [lt, left, right]
  | double d => simp [lt, left, right]

/-- They are equal exactly when their ranks are. -/
theorem same_eq_rank (left : x.rank? = some r) (right : y.rank? = some s) :
    x.same y = decide (r = s) := by
  cases x with
  | int i =>
    cases y with
    | int j =>
      cases left
      cases right
      rw [same, decide_eq_decide, Double.Rank.ofInt, Double.Rank.ofInt, Double.Rank.at.injEq]
      exact (mul_left_inj' (Int.natCast_pos.2 Double.one_pos).ne').symm
    | double d => simp [same, left, right]
  | double d => simp [same, left, right]

end Number

namespace Value

/-- One value is less than another: a smaller number or an earlier text. -/
inductive Less : Value → Value → Prop
  | number {v w : Value} {x y : Number} (left : v.number? = some x) (right : w.number? = some y)
    (less : x.lt y = true) : Less v w
  | text {v w : Value} {s t : String} (left : v.text? = some s) (right : w.text? = some t)
    (less : s < t) : Less v w

/-- Two values are the same number or the same text. -/
inductive Same : Value → Value → Prop
  | number {v w : Value} {x y : Number} (left : v.number? = some x) (right : w.number? = some y)
    (same : x.same y = true) : Same v w
  | text {v w : Value} {s : String} (left : v.text? = some s) (right : w.text? = some s) : Same v w

/-- A number with a rank, which all but one have. -/
def IsNumber (v : Value) : Prop := ∃ x r, v.number? = some x ∧ x.rank? = some r

variable {v w : Value}

/-- No value is both a number and a text. -/
theorem text?_of_number? {x : Number} (number : v.number? = some x) : v.text? = none := by
  cases v <;> cases number <;> rfl

/-- On numbers the order of values is that of numbers. -/
theorem less_iff_number {x y : Number} (left : v.number? = some x) (right : w.number? = some y) :
    Less v w ↔ x.lt y = true := by
  constructor
  · rintro (⟨left', right', less⟩ | ⟨left', -, -⟩)
    · cases left.symm.trans left'
      cases right.symm.trans right'
      exact less
    · cases (text?_of_number? left).symm.trans left'
  · exact Less.number left right

theorem same_iff_number {x y : Number} (left : v.number? = some x) (right : w.number? = some y) :
    Same v w ↔ x.same y = true := by
  constructor
  · rintro (⟨left', right', same⟩ | ⟨left', -⟩)
    · cases left.symm.trans left'
      cases right.symm.trans right'
      exact same
    · cases (text?_of_number? left).symm.trans left'
  · exact Same.number left right

/-- On texts it is the order of code points. -/
theorem less_iff_text {s t : String} (left : v.text? = some s) (right : w.text? = some t) :
    Less v w ↔ s < t := by
  constructor
  · rintro (⟨left', -, -⟩ | ⟨left', right', less⟩)
    · cases (text?_of_number? left').symm.trans left
    · cases left.symm.trans left'
      cases right.symm.trans right'
      exact less
  · exact Less.text left right

theorem same_iff_text {s t : String} (left : v.text? = some s) (right : w.text? = some t) :
    Same v w ↔ s = t := by
  constructor
  · rintro (⟨left', -, -⟩ | ⟨left', right'⟩)
    · cases (text?_of_number? left').symm.trans left
    · cases left.symm.trans left'
      cases right.symm.trans right'
      rfl
  · rintro rfl
    exact Same.text left right

/-- Values of one kind have ranks, and comparing them tells these. -/
structure Compared (kind : Value → Prop) : Prop where
  ranked : Ranked kind Less Same
  answers : ∀ v, kind v → ∀ w, kind w → ∃ t, lt? v w = .ok t ∧ (t = true ↔ v.Less w)

/-- The rank of a number. -/
def rank? (v : Value) : Option (ℤ ×ₗ ℤ) := (v.number?.bind Number.rank?).map Double.Rank.place

/-- The rank of a number that is not a NaN. -/
theorem rank?_of_number {x : Number} {r : Double.Rank} (number : v.number? = some x)
    (ranked : x.rank? = some r) : v.rank? = some r.place := by
  rw [rank?, number, Option.bind_some, ranked, Option.map_some]

theorem exists_number {r : ℤ ×ₗ ℤ} (ranked : v.rank? = some r) :
    ∃ x s, v.number? = some x ∧ x.rank? = some s ∧ s.place = r := by
  obtain ⟨s, known, placed⟩ := Option.map_eq_some_iff.1 ranked
  obtain ⟨x, number, rank⟩ := Option.bind_eq_some_iff.1 known
  exact ⟨x, s, number, rank, placed⟩

/-- All numbers but NaN are ranked, booleans among them. -/
theorem ranked_numbers : Ranked IsNumber Less Same := by
  refine ⟨ℤ ×ₗ ℤ, inferInstance, fun v => v.rank?.getD 0, ?_⟩
  rintro v ⟨x, r, left, leftRank⟩ w ⟨y, s, right, rightRank⟩
  simp only [rank?_of_number left leftRank, rank?_of_number right rightRank, Option.getD_some]
  constructor
  · rw [less_iff_number left right, Number.lt_eq_rank leftRank rightRank]
    exact r.lt_iff_place s
  · rw [same_iff_number left right, Number.same_eq_rank leftRank rightRank, decide_eq_true_iff]
    exact r.place_inj s

/-- The comparison of the source answers on two numbers … -/
theorem lt?_number {x y : Number} (left : v.number? = some x) (right : w.number? = some y) :
    lt? v w = .ok (x.lt y) := by
  cases v <;> cases left <;> cases w <;> cases right <;>
    simp [lt?, before?, scalarBefore?, number?]

/-- … so numbers can be sorted by it. -/
theorem compared_numbers : Compared IsNumber where
  ranked := ranked_numbers
  answers := by
    rintro v ⟨x, _, left, _⟩ w ⟨y, _, right, _⟩
    exact ⟨_, lt?_number left right, (less_iff_number left right).symm⟩

/-- Texts are ranked by themselves. -/
theorem ranked_texts : Ranked (fun v => v.isText = true) Less Same := by
  refine ⟨String, inferInstance, fun v => v.text?.getD "", ?_⟩
  intro v isText w isText'
  obtain ⟨s, left⟩ := Option.isSome_iff_exists.1 isText
  obtain ⟨t, right⟩ := Option.isSome_iff_exists.1 isText'
  simp only [left, right, Option.getD_some]
  exact ⟨less_iff_text left right, same_iff_text left right⟩

theorem lt?_text {s t : String} (left : v.text? = some s) (right : w.text? = some t) :
    lt? v w = .ok (decide (s < t)) := by
  unfold text? at left right
  split at left <;> split at right <;> cases left <;> cases right <;>
    simp [lt?, before?, scalarBefore?, number?, text?]

/-- Texts can be sorted by the source's comparison. -/
theorem compared_texts : Compared fun v => v.isText = true where
  ranked := ranked_texts
  answers := by
    intro v isText w isText'
    obtain ⟨s, left⟩ := Option.isSome_iff_exists.1 isText
    obtain ⟨t, right⟩ := Option.isSome_iff_exists.1 isText'
    exact ⟨_, lt?_text left right, decide_eq_true_iff.trans (less_iff_text left right).symm⟩

end Value

end ShapeContract
