import Mathlib.Order.Compare
import ShapeContract.Proofs.Value.Data

/-!
# The own order of data

Two numbers compare, two texts do, and two lists if their first different items do. Where data
compares, equal values compare alike and the order is transitive; but not all pairs compare, and two
that compare with a third one need not compare with each other.
-/

set_option autoImplicit false

namespace ShapeContract.Value

/-- The order of two values, if their kinds compare. -/
def ownOrder (v w : Value) : Option Ordering :=
  match lt? w v, lt? v w with
  | .ok greater, .ok less =>
    some (if greater && !less then .gt else if less && !greater then .lt else .eq)
  | _, _ => none

variable {v w u : Value} {a b : Atom} {c d : Ordering}

/-- Comparing the other way round gives the opposite answer. -/
theorem ownOrder_swap (v w : Value) : ownOrder w v = (ownOrder v w).map .swap := by
  unfold ownOrder
  cases lt? v w with
  | error => cases lt? w v <;> rfl
  | ok less =>
    cases lt? w v with
    | error => rfl
    | ok greater => cases less <;> cases greater <;> rfl

/-- More is less the other way round. -/
theorem ownOrder_gt_iff : ownOrder v w = some .gt ↔ ownOrder w v = some .lt := by
  rw [ownOrder_swap v w]
  cases ownOrder v w with
  | none => simp
  | some c => cases c <;> simp

/-- A tie is one either way. -/
theorem ownOrder_eq_iff : ownOrder v w = some .eq ↔ ownOrder w v = some .eq := by
  rw [ownOrder_swap v w]
  cases ownOrder v w with
  | none => simp
  | some c => cases c <;> simp

/-- What does not compare does so neither way. -/
theorem ownOrder_none_iff : ownOrder v w = none ↔ ownOrder w v = none := by
  rw [ownOrder_swap v w, Option.map_eq_none_iff]

/-- A value that compares with itself ties with itself. -/
theorem ownOrder_self (known : ownOrder v v = some c) : c = .eq := by
  have turned := ownOrder_swap v v
  rw [known] at turned
  cases c <;> first | rfl | cases turned

/-- Where a linear order decides what is less, it decides the comparison. -/
theorem ownOrder_of_lt {β : Type} [LinearOrder β] {r s : β} (less : lt? v w = .ok (decide (r < s)))
    (greater : lt? w v = .ok (decide (s < r))) : ownOrder v w = some (compare r s) := by
  rw [ownOrder, less, greater]
  rcases lt_trichotomy r s with first | rfl | last
  · simp [first, first.asymm, compare_lt_iff_lt.2 first]
  · simp
  · simp [last, last.asymm, compare_gt_iff_gt.2 last]

/-! ## What compares -/

/-- Numbers are less as their ranks are. -/
theorem lt?_ranked {r s : ℤ ×ₗ ℤ} (left : v.rank? = some r) (right : w.rank? = some s) :
    lt? v w = .ok (decide (r < s)) := by
  obtain ⟨x, p, number, rank, rfl⟩ := exists_number left
  obtain ⟨y, q, number', rank', rfl⟩ := exists_number right
  rw [lt?_number number number', Number.lt_eq_rank rank rank']
  congr 1
  rw [Bool.eq_iff_iff, Double.Rank.lt_iff_place, decide_eq_true_iff]

/-- Among data every number has a rank. -/
theorem IsData.number?_eq_none (data : IsData v) (unranked : v.rank? = none) : v.number? = none := by
  cases number : v.number? with
  | none => rfl
  | some x =>
    cases data with
    | @atom _ a atom =>
      cases a with
      | null => cases (congrArg number? (atom?_null_iff.1 atom)).symm.trans number
      | number r => cases unranked.symm.trans (atom?_number_iff.1 atom)
      | text s => cases (text?_of_number? number).symm.trans (atom?_text_iff.1 atom)
    | _ => cases number

/-- Data that are not two numbers, two texts or two lists do not compare. -/
theorem lt?_apart (data : IsData v) (data' : IsData w) (ranks : v.rank? = none ∨ w.rank? = none)
    (texts : v.text? = none ∨ w.text? = none) (lists : v.shape ≠ .list ∨ w.shape ≠ .list) :
    lt? v w = .error .typeMisuse := by
  have scalar : lt? v w = scalarBefore? false v w := by
    cases data with
    | atom atom => cases v <;> first | rfl | cases atom
    | list =>
      cases w <;> first | rfl | skip
      exact absurd rfl (lists.resolve_left (not_not_intro rfl))
    | object => rfl
    | mapping => rfl
  have numbers : v.number? = none ∨ w.number? = none :=
    ranks.imp data.number?_eq_none data'.number?_eq_none
  rw [scalar]
  unfold scalarBefore?
  split
  next left right => rcases numbers with none | none <;> simp_all
  next => rfl
  next => rfl
  next =>
    split
    next left right => rcases texts with none | none <;> simp_all
    next => rfl
    next => rfl
    next =>
      split
      next =>
        cases data with
        | atom atom => cases atom
      next =>
        cases data with
        | atom atom => cases atom
      next => rfl

/-- Data that are not two numbers, two texts or two lists do not compare. -/
theorem ownOrder_apart (data : IsData v) (data' : IsData w)
    (ranks : v.rank? = none ∨ w.rank? = none) (texts : v.text? = none ∨ w.text? = none)
    (lists : v.shape ≠ .list ∨ w.shape ≠ .list) : ownOrder v w = none := by
  rw [ownOrder, lt?_apart data data' ranks texts lists,
    lt?_apart data' data ranks.symm texts.symm lists.symm]

namespace Atom

def rank? : Atom → Option (ℤ ×ₗ ℤ)
  | .number r => some r
  | _ => none

def text? : Atom → Option String
  | .text s => some s
  | _ => none

/-- Numbers compare by rank and texts as texts. -/
def order : Atom → Atom → Option Ordering
  | .number r, .number s => some (compare r s)
  | .text s, .text t => some (compare s t)
  | _, _ => none

/-- The order of atoms is transitive. -/
theorem order_trans {a b c : Atom} (first : a.order b = some .lt) (second : b.order c = some .lt) :
    a.order c = some .lt := by
  cases b with
  | null => cases a <;> cases first
  | number s =>
    cases a <;> cases c <;> first | cases first | cases second | skip
    simp only [order, Option.some_inj, compare_lt_iff_lt] at first second ⊢
    exact first.trans second
  | text s =>
    cases a <;> cases c <;> first | cases first | cases second | skip
    simp only [order, Option.some_inj, compare_lt_iff_lt] at first second ⊢
    exact first.trans second

/-- Atoms that tie are one atom. -/
theorem eq_of_order {a b : Atom} (level : a.order b = some .eq) : a = b := by
  cases a <;> cases b <;> first | cases level | skip
  all_goals
    simp only [order, Option.some_inj, compare_eq_iff_eq] at level
    rw [level]

end Atom

/-- A value has the rank of its atom. -/
theorem rank?_of_atom (atom : v.atom? = some a) : v.rank? = a.rank? := by
  cases a with
  | null => exact congrArg rank? (atom?_null_iff.1 atom)
  | number r => exact atom?_number_iff.1 atom
  | text s => exact rank?_of_text? (atom?_text_iff.1 atom)

/-- A value has the text of its atom. -/
theorem text?_of_atom (atom : v.atom? = some a) : v.text? = a.text? := by
  cases a with
  | null => exact congrArg text? (atom?_null_iff.1 atom)
  | number r =>
    obtain ⟨x, _, number, -, -⟩ := exists_number (atom?_number_iff.1 atom)
    exact text?_of_number? number
  | text s => exact atom?_text_iff.1 atom

/-- Values compare as their atoms do. -/
theorem ownOrder_atoms (atom : v.atom? = some a) (atom' : w.atom? = some b) :
    ownOrder v w = a.order b := by
  have left := rank?_of_atom atom
  have right := rank?_of_atom atom'
  have text := text?_of_atom atom
  have text' := text?_of_atom atom'
  have lists : v.shape ≠ .list ∨ w.shape ≠ .list := by
    rw [shape_of_atom atom]
    exact .inl nofun
  cases a <;> cases b
  case number.number =>
    exact ownOrder_of_lt (lt?_ranked left right) (lt?_ranked right left)
  case text.text =>
    exact ownOrder_of_lt (lt?_text text text') (lt?_text text' text)
  all_goals
    refine ownOrder_apart (.atom atom) (.atom atom') ?_ ?_ lists
    · first | exact .inl left | exact .inr right
    · first | exact .inl text | exact .inr text'

/-! ## Lists -/

/-- The empty list comes before every other. -/
theorem ownOrder_nil_cons {ws : List Value} :
    ownOrder (.list []) (.list (w :: ws)) = some .lt := rfl

/-- Every other list comes after the empty one. -/
theorem ownOrder_cons_nil {vs : List Value} :
    ownOrder (.list (v :: vs)) (.list []) = some .gt := rfl

/-- The first items that differ decide. -/
theorem ownOrder_cons (data : IsData v) (data' : IsData w) (vs ws : List Value) :
    ownOrder (.list (v :: vs)) (.list (w :: ws)) =
      if equal v w then ownOrder (.list vs) (.list ws) else ownOrder v w := by
  have step : ∀ v w vs ws, lt? (.list (v :: vs)) (.list (w :: ws)) =
      if equal v w then lt? (.list vs) (.list ws) else lt? v w := fun _ _ _ _ => rfl
  rw [ownOrder, step, step, data.lawful.comm w data']
  cases equal w v <;> rfl

/-- Values with parts compare only if both are lists. -/
theorem ownOrder_parts (data : IsData v) (data' : IsData w) (parts : v.shape ≠ .plain)
    (lists : v.shape ≠ .list ∨ w.shape ≠ .list) : ownOrder v w = none := by
  obtain ⟨rank, text⟩ : v.rank? = none ∧ v.text? = none := by
    cases data with
    | atom atom => exact absurd (shape_of_atom atom) parts
    | _ => exact ⟨rfl, rfl⟩
  exact ownOrder_apart data data' (.inl rank) (.inl text) lists

/-- Values without parts compare with one another and lists with lists, and nothing else does. -/
theorem shape_of_ownOrder (data : IsData v) (data' : IsData w) (known : ownOrder v w = some c) :
    w.shape = v.shape ∧ (v.shape = .plain ∨ v.shape = .list) := by
  by_cases plain : v.shape = .plain
  · refine ⟨?_, .inl plain⟩
    by_contra other
    have parts : w.shape ≠ .plain := fun plain' => other (plain'.trans plain.symm)
    have turned := ownOrder_parts data' data parts (.inr (by rw [plain]; nofun))
    cases (ownOrder_none_iff.1 turned).symm.trans known
  · have lists : v.shape = .list ∧ w.shape = .list := by
      by_contra other
      cases (ownOrder_parts data data' plain (not_and_or.1 other)).symm.trans known
    exact ⟨lists.2.trans lists.1.symm, .inr lists.1⟩

/-- Data of different shapes do not compare, nor do mappings. -/
theorem ownOrder_eq_none (data : IsData v) (data' : IsData w)
    (other : ¬ (w.shape = v.shape ∧ (v.shape = .plain ∨ v.shape = .list))) : ownOrder v w = none :=
  Option.eq_none_iff_forall_ne_some.2 fun _ known => other (shape_of_ownOrder data data' known)

/-! ## Equal values compare alike -/

section Lists

variable {vs ws us : List Value}

/-- By induction on the lists: the items compare alike, as do the rests where the items are equal. -/
theorem ownOrder_list_congr (data : ∀ v ∈ vs, IsData v) (data' : ∀ w ∈ ws, IsData w)
    (data'' : ∀ u ∈ us, IsData u)
    (each : ∀ v ∈ vs, ∀ w u, IsData w → IsData u → equal v w = true → ownOrder v u = ownOrder w u)
    (same : equalList vs ws = true) :
    ownOrder (.list vs) (.list us) = ownOrder (.list ws) (.list us) := by
  induction vs generalizing ws us with
  | nil =>
    cases ws with
    | nil => rfl
    | cons w ws => cases same
  | cons v vs ih =>
    cases ws with
    | nil => cases same
    | cons w ws =>
      cases us with
      | nil => rw [ownOrder_cons_nil, ownOrder_cons_nil]
      | cons u us =>
        obtain ⟨first, others⟩ := (Bool.and_eq_true _ _).mp same
        obtain ⟨dataV, dataVs⟩ := List.forall_mem_cons.1 data
        obtain ⟨dataW, dataWs⟩ := List.forall_mem_cons.1 data'
        obtain ⟨dataU, dataUs⟩ := List.forall_mem_cons.1 data''
        obtain ⟨here, later⟩ := List.forall_mem_cons.1 each
        rw [ownOrder_cons dataV dataU, ownOrder_cons dataW dataU, here w u dataW dataU first,
          dataV.lawful.congr w u dataW dataU first, ih dataVs dataWs dataUs later others]

end Lists

/-- Equal values compare alike with any third. -/
theorem IsData.ownOrder_congr (data : IsData v) (data' : IsData w) (data'' : IsData u)
    (same : equal v w = true) : ownOrder v u = ownOrder w u := by
  induction data generalizing w u with
  | @atom v a atom =>
    have atom' := (equal_atom atom w).1 same
    by_cases plain : u.shape = .plain
    · obtain ⟨b, other⟩ := data''.atom_of_shape plain
      rw [ownOrder_atoms atom other, ownOrder_atoms atom' other]
    · have other : u.shape ≠ v.shape := fun level => plain (level.trans (shape_of_atom atom))
      have other' : u.shape ≠ w.shape := fun level => plain (level.trans (shape_of_atom atom'))
      rw [ownOrder_eq_none (.atom atom) data'' fun comparable => other comparable.1,
        ownOrder_eq_none data' data'' fun comparable => other' comparable.1]
  | list data ih =>
    obtain ⟨ws, rfl, items⟩ := data'.list_of_shape ((IsData.list data).shape_of_equal same).symm
    by_cases list : u.shape = .list
    · obtain ⟨us, rfl, items'⟩ := data''.list_of_shape list
      exact ownOrder_list_congr data items items' (fun v inside w u => ih v inside) same
    · rw [ownOrder_eq_none (.list data) data'' fun ⟨level, _⟩ => list level,
        ownOrder_eq_none data' data'' fun ⟨level, _⟩ => list level]
  | object own data =>
    have level := (IsData.object own data).shape_of_equal same
    rw [ownOrder_parts (.object own data) data'' nofun (.inl nofun),
      ownOrder_parts data' data'' (level ▸ nofun) (.inl (level ▸ nofun))]
  | mapping own keys each =>
    have level := (IsData.mapping own keys each).shape_of_equal same
    rw [ownOrder_parts (.mapping own keys each) data'' nofun (.inl nofun),
      ownOrder_parts data' data'' (level ▸ nofun) (.inl (level ▸ nofun))]

/-- The same for values on the right. -/
theorem IsData.ownOrder_congr_right (data : IsData v) (data' : IsData w) (data'' : IsData u)
    (same : equal w u = true) : ownOrder v w = ownOrder v u := by
  rw [ownOrder_swap w v, ownOrder_swap u v, data'.ownOrder_congr data'' data same]

/-- Where equal values compare at all, they tie. -/
theorem IsData.level_of_equal (data : IsData v) (data' : IsData w) (same : equal v w = true)
    (known : ownOrder v w = some c) : c = .eq :=
  ownOrder_self (v := w) (by rw [← data.ownOrder_congr data' data' same, known])

/-- What is less is not equal. -/
theorem IsData.not_equal_of_less (data : IsData v) (data' : IsData w)
    (less : ownOrder v w = some .lt) : ¬ equal v w = true := by
  intro same
  cases data.level_of_equal data' same less

/-! ## Values that tie are equal -/

/-- Lists that tie are equal if this holds of their elements. -/
theorem equalList_of_level {vs ws : List Value} (data : ∀ v ∈ vs, IsData v)
    (data' : ∀ w ∈ ws, IsData w)
    (each : ∀ v ∈ vs, ∀ w, IsData w → ownOrder v w = some .eq → equal v w = true)
    (level : ownOrder (.list vs) (.list ws) = some .eq) : equalList vs ws = true := by
  induction vs generalizing ws with
  | nil =>
    cases ws with
    | nil => rfl
    | cons w ws => cases ownOrder_nil_cons.symm.trans level
  | cons v vs ih =>
    cases ws with
    | nil => cases ownOrder_cons_nil.symm.trans level
    | cons w ws =>
      obtain ⟨dataV, dataVs⟩ := List.forall_mem_cons.1 data
      obtain ⟨dataW, dataWs⟩ := List.forall_mem_cons.1 data'
      obtain ⟨here, later⟩ := List.forall_mem_cons.1 each
      rw [ownOrder_cons dataV dataW] at level
      split at level
      next same => rw [equalList, same, ih dataVs dataWs later level, Bool.true_and]
      next differ => exact absurd (here w dataW level) differ

/-- Values that tie are equal. -/
theorem IsData.equal_of_level (data : IsData v) (data' : IsData w)
    (level : ownOrder v w = some .eq) : equal v w = true := by
  obtain ⟨alike, _⟩ := shape_of_ownOrder data data' level
  induction data generalizing w with
  | @atom v a atom =>
    obtain ⟨b, atom'⟩ := data'.atom_of_shape (alike.trans (shape_of_atom atom))
    rw [equal_atom atom, atom', Atom.eq_of_order ((ownOrder_atoms atom atom').symm.trans level)]
  | list data ih =>
    obtain ⟨ws, rfl, items⟩ := data'.list_of_shape alike
    refine equalList_of_level data items (fun v inside w dataW level => ?_) level
    obtain ⟨alike, comparable⟩ := shape_of_ownOrder (data v inside) dataW level
    exact ih v inside dataW level alike comparable
  | object own data =>
    cases (ownOrder_parts (.object own data) data' nofun (.inl nofun)).symm.trans level
  | mapping own keys each =>
    cases (ownOrder_parts (.mapping own keys each) data' nofun (.inl nofun)).symm.trans level

/-! ## The order is transitive -/

/-- The order of lists is transitive if that of their elements is: the first difference decides. -/
theorem ownOrder_list_trans {vs ws us : List Value} (data : ∀ v ∈ vs, IsData v)
    (data' : ∀ w ∈ ws, IsData w) (data'' : ∀ u ∈ us, IsData u)
    (each : ∀ v ∈ vs, ∀ w u, IsData w → IsData u → ownOrder v w = some .lt →
      ownOrder w u = some .lt → ownOrder v u = some .lt)
    (first : ownOrder (.list vs) (.list ws) = some .lt)
    (second : ownOrder (.list ws) (.list us) = some .lt) :
    ownOrder (.list vs) (.list us) = some .lt := by
  induction vs generalizing ws us with
  | nil =>
    cases us with
    | nil => cases ws <;> cases second
    | cons u us => exact ownOrder_nil_cons
  | cons v vs ih =>
    cases ws with
    | nil => cases ownOrder_cons_nil.symm.trans first
    | cons w ws =>
      cases us with
      | nil => cases ownOrder_cons_nil.symm.trans second
      | cons u us =>
        obtain ⟨dataV, dataVs⟩ := List.forall_mem_cons.1 data
        obtain ⟨dataW, dataWs⟩ := List.forall_mem_cons.1 data'
        obtain ⟨dataU, dataUs⟩ := List.forall_mem_cons.1 data''
        obtain ⟨here, later⟩ := List.forall_mem_cons.1 each
        rw [ownOrder_cons dataV dataW] at first
        rw [ownOrder_cons dataW dataU] at second
        rw [ownOrder_cons dataV dataU]
        -- The first difference of the outer two is the earlier one of the two that are given.
        by_cases same : equal v w = true
        · rw [if_pos same] at first
          rw [dataV.lawful.congr w u dataW dataU same]
          by_cases same' : equal w u = true
          · rw [if_pos same'] at second ⊢
            exact ih dataVs dataWs dataUs later first second
          · rw [if_neg same'] at second ⊢
            rw [dataV.ownOrder_congr dataW dataU same, second]
        · rw [if_neg same] at first
          have less : ownOrder v u = some .lt := by
            by_cases same' : equal w u = true
            · rw [← dataV.ownOrder_congr_right dataW dataU same', first]
            · rw [if_neg same'] at second
              exact here w u dataW dataU first second
          rw [if_neg (dataV.not_equal_of_less dataU less), less]

/-- The order of data is transitive, by induction on the first value. -/
theorem IsData.ownOrder_trans (data : IsData v) (data' : IsData w) (data'' : IsData u)
    (first : ownOrder v w = some .lt) (second : ownOrder w u = some .lt) :
    ownOrder v u = some .lt := by
  obtain ⟨alike, _⟩ := shape_of_ownOrder data data' first
  obtain ⟨alike', _⟩ := shape_of_ownOrder data' data'' second
  induction data generalizing w u with
  | @atom v a atom =>
    obtain ⟨b, atom'⟩ := data'.atom_of_shape (alike.trans (shape_of_atom atom))
    obtain ⟨c, atom''⟩ := data''.atom_of_shape (alike'.trans (shape_of_atom atom'))
    rw [ownOrder_atoms atom atom'] at first
    rw [ownOrder_atoms atom' atom''] at second
    rw [ownOrder_atoms atom atom'', Atom.order_trans first second]
  | list data ih =>
    obtain ⟨ws, rfl, items⟩ := data'.list_of_shape alike
    obtain ⟨us, rfl, items'⟩ := data''.list_of_shape alike'
    refine ownOrder_list_trans data items items' (fun v inside w u dataW dataU first second => ?_)
      first second
    obtain ⟨alike, comparable⟩ := shape_of_ownOrder (data v inside) dataW first
    obtain ⟨alike', comparable'⟩ := shape_of_ownOrder dataW dataU second
    exact ih v inside dataW dataU first second alike comparable alike' comparable'
  | object own data =>
    cases (ownOrder_parts (.object own data) data' nofun (.inl nofun)).symm.trans first
  | mapping own keys each =>
    cases (ownOrder_parts (.mapping own keys each) data' nofun (.inl nofun)).symm.trans first

end ShapeContract.Value
