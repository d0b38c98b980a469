import Mathlib.Data.List.Forall2
import Mathlib.Data.List.Perm.Basic
import ShapeContract.Overrides.Key
import ShapeContract.Proofs.Double.Text
import ShapeContract.Proofs.Text.Quoted
import ShapeContract.Proofs.Value.Sorted

/-!
# Canonical JSON text

The canonical text of plain data determines the data up to the order of keys, at every depth, and
nothing else: `Value.json_eq_iff`. Texts are read from the left: what follows a value starts with a
separator or a closing bracket, so the value and the rest are read apart.
-/

set_option autoImplicit false

namespace ShapeContract

namespace Value

mutual

/-- JSON data that can be written: no number that is none, no integer with too many digits, every
key once. -/
def IsPlain : Value → Prop
  | .null => True
  | .bool _ => True
  | .int i => i.natAbs < integerLimit
  | .float x => x ≠ .nan
  | .str _ => True
  | .list vs => ArePlain vs
  | .object fs => (Fields.keys fs).Nodup ∧ FieldsArePlain fs
  | _ => False

def ArePlain : List Value → Prop
  | [] => True
  | v :: vs => IsPlain v ∧ ArePlain vs

def FieldsArePlain : List (String × Value) → Prop
  | [] => True
  | (_, v) :: rest => IsPlain v ∧ FieldsArePlain rest

end

mutual

/-- Equal up to the order of keys, at every depth. -/
def SameData : Value → Value → Prop
  | .list vs, w => ∃ ws, w = .list ws ∧ SameItems vs ws
  | .object fs, w => ∃ gs hs, w = .object gs ∧ hs.Perm gs ∧ SameFields fs hs
  | v, w => v = w

def SameItems : List Value → List Value → Prop
  | [], ws => ws = []
  | v :: vs, ws => ∃ x xs, ws = x :: xs ∧ SameData v x ∧ SameItems vs xs

/-- The same names in the same order, with values that are the same data. -/
def SameFields : List (String × Value) → List (String × Value) → Prop
  | [], gs => gs = []
  | (k, v) :: fs, gs => ∃ x hs, gs = (k, x) :: hs ∧ SameData v x ∧ SameFields fs hs

end

theorem arePlain_iff (vs : List Value) : ArePlain vs ↔ ∀ v ∈ vs, IsPlain v := by
  induction vs with
  | nil => simp [ArePlain]
  | cons v vs ih => simp [ArePlain, ih]

theorem fieldsArePlain_iff (fs : List (String × Value)) :
    FieldsArePlain fs ↔ ∀ e ∈ fs, IsPlain e.2 := by
  induction fs with
  | nil => simp [FieldsArePlain]
  | cons e rest ih =>
    obtain ⟨k, v⟩ := e
    simp [FieldsArePlain, ih]

theorem sameItems_iff (vs ws : List Value) : SameItems vs ws ↔ List.Forall₂ SameData vs ws := by
  induction vs generalizing ws with
  | nil => simp [SameItems]
  | cons v vs ih =>
    constructor
    · rintro ⟨x, xs, rfl, same, others⟩
      exact List.Forall₂.cons same ((ih xs).1 others)
    · intro pairs
      obtain ⟨x, xs, same, others, rfl⟩ := List.forall₂_cons_left_iff.1 pairs
      exact ⟨x, xs, rfl, same, (ih xs).2 others⟩

/-- One name and the same data. -/
def SameEntry (e f : String × Value) : Prop := e.1 = f.1 ∧ SameData e.2 f.2

theorem sameFields_iff (fs gs : List (String × Value)) :
    SameFields fs gs ↔ List.Forall₂ SameEntry fs gs := by
  induction fs generalizing gs with
  | nil => simp [SameFields]
  | cons e rest ih =>
    obtain ⟨k, v⟩ := e
    constructor
    · rintro ⟨x, hs, rfl, same, others⟩
      exact List.Forall₂.cons ⟨rfl, same⟩ ((ih hs).1 others)
    · intro pairs
      obtain ⟨⟨name, x⟩, hs, ⟨names, same⟩, others, rfl⟩ := List.forall₂_cons_left_iff.1 pairs
      exact ⟨x, hs, by rw [show k = name from names], same, (ih hs).2 others⟩

/-- The canonical text as characters. -/
def canonical (v : Value) : List Char := (v.json .canonical).toList

end Value

/-- Parts with commas between them. -/
def commas (parts : List (List Char)) : List Char := [','].intercalate parts

namespace Value

/-- The text of an entry. -/
def canonicalEntry (e : String × Value) : List Char :=
  (Text.jsonQuoted true e.1).toList ++ ':' :: canonical e.2

theorem jsonAll_eq (layout : JsonLayout) (vs : List Value) :
    jsonAll layout vs = vs.map (json layout) := by
  induction vs with
  | nil => rfl
  | cons v vs ih => rw [jsonAll, ih, List.map_cons]

theorem jsonFields_eq (layout : JsonLayout) (fs : List (String × Value)) :
    jsonFields layout fs = Fields.mapValues (json layout) fs := by
  induction fs with
  | nil => rfl
  | cons e rest ih =>
    obtain ⟨k, v⟩ := e
    rw [jsonFields, ih]
    rfl

/-- The text of a list: its elements between brackets, with commas. -/
theorem canonical_list (vs : List Value) :
    canonical (.list vs) = '[' :: commas (vs.map canonical) ++ [']'] := by
  have written : json .canonical (.list vs) =
      "[" ++ Text.join "," (jsonAll JsonLayout.canonical vs) ++ "]" := rfl
  have parts : (vs.map (json .canonical)).map String.toList = vs.map canonical := by
    rw [List.map_map]
    rfl
  show (json .canonical (.list vs)).toList = _
  rw [written, jsonAll_eq, Text.join, String.toList_append, String.toList_append,
    String.toList_intercalate, parts]
  rfl

/-- The text of a mapping: its entries sorted by name between braces, with commas. -/
theorem canonical_object (fs : List (String × Value)) :
    canonical (.object fs) =
      '\x7b' :: commas ((Fields.sorted fs).map canonicalEntry) ++ ['\x7d'] := by
  have written : json .canonical (.object fs) =
      inBraces (Text.join "," ((Fields.sorted (jsonFields .canonical fs)).map fun e =>
        Text.jsonQuoted true e.1 ++ ":" ++ e.2)) := rfl
  have parts : ((Fields.mapValues (json .canonical) (Fields.sorted fs)).map fun e =>
      Text.jsonQuoted true e.1 ++ ":" ++ e.2).map String.toList =
      (Fields.sorted fs).map canonicalEntry := by
    rw [Fields.mapValues, List.map_map, List.map_map]
    refine List.map_congr_left ?_
    intro e _
    simp [canonicalEntry, canonical]
  show (json .canonical (.object fs)).toList = _
  rw [written, jsonFields_eq, Fields.sorted_mapValues, inBraces, Text.join, String.toList_append,
    String.toList_append, String.toList_intercalate, parts]
  rfl

end Value

/-- What can follow a value: nothing, a separator or a closing bracket. -/
def Ends (rest : List Char) : Prop :=
  rest = [] ∨ ∃ c more, rest = c :: more ∧ c ∈ [',', ']', '\x7d']

/-- The text of a value starts with something else than what can follow a value. -/
def Starts (text : List Char) : Prop := ∃ c more, text = c :: more ∧ c ∉ [',', ']', '\x7d']

/-- Two texts that are read apart from what follows them; if they agree then something holds. -/
def Apart (s t : List Char) (p : Prop) : Prop :=
  ∀ rest more, Ends rest → Ends more → s ++ rest = t ++ more → p ∧ rest = more

theorem commas_cons (part : List Char) (parts : List (List Char)) :
    commas (part :: parts) = part ++ parts.flatMap (',' :: ·) := by
  induction parts generalizing part with
  | nil => simp [commas]
  | cons next parts ih =>
    have step := ih next
    unfold commas at step ⊢
    rw [List.intercalate_cons_cons, step]
    simp

section Sequences

variable {α β : Type} {f : α → List Char} {g : β → List Char} {P : α → β → Prop}
  {close : Char} {rest more : List Char}

/-- What comes after the parts of a sequence ends them. -/
theorem ends_close (isClose : close ∈ [']', '\x7d']) (ps : List (List Char)) (rest : List Char) :
    Ends (ps.flatMap (',' :: ·) ++ close :: rest) := by
  cases ps with
  | nil => exact Or.inr ⟨close, rest, rfl, List.mem_cons_of_mem _ isClose⟩
  | cons p ps =>
    exact Or.inr ⟨',', p ++ (ps.flatMap (',' :: ·) ++ close :: rest), by simp, List.mem_cons_self⟩

/-- Later parts, each with a comma before it, are read apart. -/
theorem flatMap_append_inj (isClose : close ∈ [']', '\x7d']) (xs : List α) (ys : List β)
    (apart : ∀ x ∈ xs, ∀ y ∈ ys, Apart (f x) (g y) (P x y))
    (same : (xs.map f).flatMap (',' :: ·) ++ close :: rest =
      (ys.map g).flatMap (',' :: ·) ++ close :: more) :
    List.Forall₂ P xs ys ∧ rest = more := by
  have noComma : close ≠ ',' := by
    rintro rfl
    revert isClose
    decide
  induction xs generalizing ys with
  | nil =>
    cases ys with
    | nil => exact ⟨List.Forall₂.nil, by simpa using same⟩
    | cons y ys =>
      rw [List.map_nil, List.flatMap_nil, List.map_cons, List.flatMap_cons] at same
      exact absurd (List.cons.inj same).1 noComma
  | cons x xs ih =>
    cases ys with
    | nil =>
      rw [List.map_nil, List.flatMap_nil, List.map_cons, List.flatMap_cons] at same
      exact absurd (List.cons.inj same).1.symm noComma
    | cons y ys =>
      simp only [List.map_cons, List.flatMap_cons, List.cons_append, List.append_assoc,
        List.cons.injEq, true_and] at same
      obtain ⟨first, others⟩ := apart x List.mem_cons_self y List.mem_cons_self _ _
        (ends_close isClose _ rest) (ends_close isClose _ more) same
      obtain ⟨pairs, ends⟩ := ih ys (fun x inX y inY =>
        apart x (List.mem_cons_of_mem _ inX) y (List.mem_cons_of_mem _ inY)) others
      exact ⟨List.Forall₂.cons first pairs, ends⟩

/-- **Sequences of parts that are read apart are read apart.** -/
theorem commas_append_inj (isClose : close ∈ [']', '\x7d']) (xs : List α) (ys : List β)
    (startsX : ∀ x ∈ xs, Starts (f x)) (startsY : ∀ y ∈ ys, Starts (g y))
    (apart : ∀ x ∈ xs, ∀ y ∈ ys, Apart (f x) (g y) (P x y))
    (same : commas (xs.map f) ++ close :: rest = commas (ys.map g) ++ close :: more) :
    List.Forall₂ P xs ys ∧ rest = more := by
  have nothing : commas [] = [] := rfl
  have opens : ∀ text tail end', Starts text → text ++ tail ≠ close :: end' := by
    rintro _ tail end' ⟨c, text, rfl, other⟩ begins
    rw [List.cons_append, List.cons.injEq] at begins
    exact other (begins.1 ▸ List.mem_cons_of_mem _ isClose)
  cases xs with
  | nil =>
    cases ys with
    | nil =>
      rw [List.map_nil, List.map_nil, nothing, List.nil_append, List.nil_append,
        List.cons.injEq] at same
      exact ⟨List.Forall₂.nil, same.2⟩
    | cons y ys =>
      rw [List.map_nil, nothing, List.nil_append, List.map_cons, commas_cons,
        List.append_assoc] at same
      exact absurd same.symm (opens _ _ _ (startsY y List.mem_cons_self))
  | cons x xs =>
    cases ys with
    | nil =>
      rw [List.map_nil, nothing, List.nil_append, List.map_cons, commas_cons,
        List.append_assoc] at same
      exact absurd same (opens _ _ _ (startsX x List.mem_cons_self))
    | cons y ys =>
      rw [List.map_cons, List.map_cons, commas_cons, commas_cons, List.append_assoc,
        List.append_assoc] at same
      obtain ⟨first, others⟩ := apart x List.mem_cons_self y List.mem_cons_self _ _
        (ends_close isClose _ rest) (ends_close isClose _ more) same
      obtain ⟨pairs, ends⟩ := flatMap_append_inj isClose xs ys (fun x inX y inY =>
        apart x (List.mem_cons_of_mem _ inX) y (List.mem_cons_of_mem _ inY)) others
      exact ⟨List.Forall₂.cons first pairs, ends⟩

end Sequences

namespace Value

/-- Values whose text is one word or one number. -/
inductive IsScalar : Value → Prop
  | null : IsScalar .null
  | yes : IsScalar (.bool true)
  | no : IsScalar (.bool false)
  | int (i : Int) : IsScalar (.int i)
  | infinite (negative : Bool) : IsScalar (.float (.infinite negative))
  | finite (negative : Bool) (units : Nat) (rep : Double.Representable units) :
    IsScalar (.float (.finite negative units rep))

/-- The text of an integer: its digits, after a sign if it is negative. -/
theorem canonical_int (i : Int) :
    (canonical (.int i) = Decimal.digits i.natAbs ∧ 0 ≤ i) ∨
      (canonical (.int i) = '-' :: Decimal.digits i.natAbs ∧ i < 0) := by
  cases i with
  | ofNat n => exact Or.inl ⟨String.toList_ofList, Int.natCast_nonneg n⟩
  | negSucc n => exact Or.inr ⟨String.toList_ofList, Int.negSucc_lt_zero n⟩

/-- The text of a double: its shortest text, after a sign if it is negative. -/
theorem canonical_finite (negative : Bool) (units : Nat) (rep : Double.Representable units) :
    canonical (.float (.finite negative units rep)) =
      if negative then '-' :: Double.body units else Double.body units := by
  show (Double.finite negative units rep).text.toList = _
  rw [Double.text_finite, String.toList_ofList]

/-- A text of a number has no other characters than those of numbers. -/
theorem notMem_of_numberChars {cs : List Char} (chars : ∀ c ∈ cs, Double.IsNumberChar c) {c : Char}
    (letter : ¬ Double.IsNumberChar c) : c ∉ cs := fun member => letter (chars c member)

/-- The text of an integer has characters of numbers only. -/
theorem numberChars_int (i : Int) : ∀ c ∈ canonical (.int i), Double.IsNumberChar c := by
  have digits := Double.allDigits_numberChars (Decimal.allDigits_digits i.natAbs)
  rcases canonical_int i with ⟨written, _⟩ | ⟨written, _⟩
  · rw [written]
    exact digits
  · rw [written]
    exact List.forall_mem_cons.2 ⟨Or.inr (by decide), digits⟩

/-- The text of a finite double has characters of numbers only. -/
theorem numberChars_finite (negative : Bool) (units : Nat) (rep : Double.Representable units) :
    ∀ c ∈ canonical (.float (.finite negative units rep)), Double.IsNumberChar c := by
  have chars := (Double.isDecimalText_body rep).2.2
  rw [canonical_finite]
  split
  · exact List.forall_mem_cons.2 ⟨Or.inr (by decide), chars⟩
  · exact chars

/-- The sort of scalar that a text is of: words, then doubles, then integers. -/
def sortOf (text : List Char) : Nat :=
  if 'I' ∈ text then 3
  else if 'n' ∈ text then 0
  else if 'r' ∈ text then 1
  else if 's' ∈ text then 2
  else if '.' ∈ text ∨ 'e' ∈ text then 4
  else 5

/-- What holds of every item of a closed list can be computed. -/
theorem forall_of_all {α : Type} {p : α → Prop} [DecidablePred p] {xs : List α}
    (holds : (xs.all fun x => decide (p x)) = true) : ∀ x ∈ xs, p x :=
  fun x inside => of_decide_eq_true (List.all_eq_true.1 holds x inside)

/-- A double shows itself by a point or an exponent. -/
theorem sortOf_number {text : List Char} (chars : ∀ c ∈ text, Double.IsNumberChar c) :
    sortOf text = if '.' ∈ text ∨ 'e' ∈ text then 4 else 5 := by
  have letters : ∀ c ∈ ['I', 'n', 'r', 's'], ¬ Double.IsNumberChar c := by
    unfold Double.IsNumberChar
    exact forall_of_all (by decide)
  unfold sortOf
  rw [if_neg (notMem_of_numberChars chars (letters 'I' (by decide))),
    if_neg (notMem_of_numberChars chars (letters 'n' (by decide))),
    if_neg (notMem_of_numberChars chars (letters 'r' (by decide))),
    if_neg (notMem_of_numberChars chars (letters 's' (by decide)))]

/-- The text of an integer has neither point nor exponent. -/
theorem sortOf_int (i : Int) : sortOf (canonical (.int i)) = 5 := by
  have digits := Decimal.allDigits_digits i.natAbs
  have plain : '.' ∉ canonical (.int i) ∧ 'e' ∉ canonical (.int i) := by
    have point := digits.notMem (c := '.') rfl
    have mark := digits.notMem (c := 'e') rfl
    rcases canonical_int i with ⟨written, _⟩ | ⟨written, _⟩ <;> rw [written] <;> simp [point, mark]
  rw [sortOf_number (numberChars_int i), if_neg (not_or.2 plain)]

/-- The text of a finite double has a point or an exponent. -/
theorem sortOf_finite (negative : Bool) (units : Nat) (rep : Double.Representable units) :
    sortOf (canonical (.float (.finite negative units rep))) = 4 := by
  have marked := (Double.isDecimalText_body rep).2.1
  rw [sortOf_number (numberChars_finite negative units rep), if_pos]
  rw [canonical_finite]
  cases negative
  · exact marked
  · exact marked.imp (List.mem_cons_of_mem _) (List.mem_cons_of_mem _)

/-- Integers with one text are one integer. -/
theorem int_injective {i j : Int} (same : canonical (.int i) = canonical (.int j)) : i = j := by
  have noMinus : ∀ n tail, Decimal.digits n ≠ '-' :: tail := by
    intro n tail written
    have minus := Decimal.allDigits_digits n '-' (written ▸ List.mem_cons_self)
    cases minus
  have sizes : ∀ m n, Decimal.digits m = Decimal.digits n → m = n := by
    intro m n digits
    rw [← Decimal.value_digits m, digits, Decimal.value_digits]
  rcases canonical_int i with ⟨writtenI, signI⟩ | ⟨writtenI, signI⟩ <;>
    rcases canonical_int j with ⟨writtenJ, signJ⟩ | ⟨writtenJ, signJ⟩ <;>
    rw [writtenI, writtenJ] at same
  · have := sizes _ _ same
    omega
  · exact absurd same (noMinus _ _)
  · exact absurd same.symm (noMinus _ _)
  · have := sizes _ _ (List.cons.inj same).2
    omega

/-- **The text of a word or a number determines it.** -/
theorem scalar_injective {v w : Value} (scalarV : IsScalar v) (scalarW : IsScalar w)
    (same : canonical v = canonical w) : v = w := by
  have sorts := congrArg sortOf same
  have infinity : ∀ n, sortOf (canonical (.float (.infinite n))) = 3 := by decide +kernel
  have word : sortOf (canonical .null) = 0 := by decide +kernel
  have yes : sortOf (canonical (.bool true)) = 1 := by decide +kernel
  have no : sortOf (canonical (.bool false)) = 2 := by decide +kernel
  -- Only values of one sort are left.
  cases scalarV <;> cases scalarW <;>
    simp [infinity, word, yes, no, sortOf_int, sortOf_finite] at sorts
  case null.null => rfl
  case yes.yes => rfl
  case no.no => rfl
  case int.int i j => rw [int_injective same]
  case infinite.infinite n m =>
    have apart : ∀ n m : Bool, canonical (.float (.infinite n)) = canonical (.float (.infinite m)) →
        n = m := by decide +kernel
    rw [apart n m same]
  case finite.finite n u repU m v repV =>
    have texts : (Double.finite n u repU).text = (Double.finite m v repV).text :=
      String.toList_inj.1 same
    rw [Double.finite_text_injective texts]

/-- The characters that mean something in the text of a text, a list or a mapping. -/
def marks : List Char := [',', ']', '\x7d', '"', '[', '\x7b']

/-- The text of a scalar is not empty and has none of the marks of other texts. -/
theorem scalar_text {v : Value} (scalar : IsScalar v) :
    canonical v ≠ [] ∧ ∀ c ∈ canonical v, c ∉ marks := by
  have plain : ∀ c, Double.IsNumberChar c → c ∉ marks := by
    intro c number mark
    have marked : ∀ c ∈ marks, Decimal.isDigit c = false ∧ c ∉ ['.', 'e', '+', '-'] :=
      forall_of_all (by decide)
    rcases number with digit | other
    · rw [(marked c mark).1] at digit
      cases digit
    · exact (marked c mark).2 other
  cases scalar with
  | null => exact ⟨by decide +kernel, forall_of_all (by decide +kernel)⟩
  | yes => exact ⟨by decide +kernel, forall_of_all (by decide +kernel)⟩
  | no => exact ⟨by decide +kernel, forall_of_all (by decide +kernel)⟩
  | int i =>
    refine ⟨?_, fun c member => plain c (numberChars_int i c member)⟩
    have some := Double.length_digits_pos i.natAbs
    intro nothing
    rcases canonical_int i with ⟨written, _⟩ | ⟨written, _⟩
    · rw [← written, nothing] at some
      cases some
    · rw [nothing] at written
      cases written
  | infinite negative => cases negative <;> exact ⟨by decide +kernel, forall_of_all (by decide +kernel)⟩
  | finite negative units rep =>
    refine ⟨?_, fun c member => plain c (numberChars_finite negative units rep c member)⟩
    obtain ⟨⟨d, rest, shape, _⟩, _⟩ := Double.isDecimalText_body rep
    rw [canonical_finite, shape]
    cases negative <;> exact List.cons_ne_nil _ _

/-- The kind of value that a text begins. -/
def kindOf (text : List Char) : Nat :=
  if text.head? = some '"' then 1
  else if text.head? = some '[' then 2
  else if text.head? = some '\x7b' then 3
  else 0

/-! A word is a text without marks. -/

section Words

variable {t u : List Char}

/-- A text without marks is taken for a word, whatever follows it. -/
theorem kindOf_word (some : t ≠ []) (unmarked : ∀ c ∈ t, c ∉ marks) (rest : List Char) :
    kindOf (t ++ rest) = 0 := by
  obtain ⟨c, more, shape⟩ := List.exists_cons_of_ne_nil some
  have other := unmarked c (shape ▸ List.mem_cons_self)
  simp only [marks, List.mem_cons, not_or] at other
  simp [kindOf, shape, other]

/-- A text without marks begins a part. -/
theorem starts_word (some : t ≠ []) (unmarked : ∀ c ∈ t, c ∉ marks) : Starts t := by
  obtain ⟨c, more, shape⟩ := List.exists_cons_of_ne_nil some
  have other := unmarked c (shape ▸ List.mem_cons_self)
  exact ⟨c, more, shape, fun inside => other (List.mem_append_left ['"', '[', '\x7b'] inside)⟩

/-- What follows a word does not run into it. -/
theorem word_apart (unmarkedT : ∀ c ∈ t, c ∉ marks) (unmarkedU : ∀ c ∈ u, c ∉ marks) :
    Apart t u (t = u) := by
  intro rest more endsR endsM same
  have stop : ∀ {w tail : List Char}, (∀ c ∈ w, c ∉ marks) → Ends tail →
      (w ++ tail).takeWhile (fun c => decide (c ∉ marks)) = w := by
    intro w tail unmarked ends
    rw [List.takeWhile_append_of_pos fun c inside => decide_eq_true (unmarked c inside)]
    rcases ends with rfl | ⟨c, next, rfl, mark⟩
    · simp
    · have halts : ¬ decide (c ∉ marks) = true := fun goes =>
        of_decide_eq_true goes (List.mem_append_left ['"', '[', '\x7b'] mark)
      rw [List.takeWhile_cons_of_neg (p := fun c => decide (c ∉ marks)) halts, List.append_nil]
  have texts : t = u := by rw [← stop unmarkedT endsR, same, stop unmarkedU endsM]
  rw [texts] at same
  exact ⟨texts, List.append_cancel_left same⟩

end Words

/-- The text of a scalar is a word. -/
theorem kindOf_scalar {v : Value} (scalar : IsScalar v) (rest : List Char) :
    kindOf (canonical v ++ rest) = 0 :=
  kindOf_word (scalar_text scalar).1 (scalar_text scalar).2 rest

theorem canonical_str (s : String) : canonical (.str s) = (Text.jsonQuoted true s).toList := rfl

/-- The text of a text begins with a quote. -/
theorem kindOf_str (s : String) (rest : List Char) : kindOf (canonical (.str s) ++ rest) = 1 := by
  simp [kindOf, canonical_str, Text.jsonQuoted]

/-- The text of a list begins with a bracket. -/
theorem kindOf_list (vs : List Value) (rest : List Char) :
    kindOf (canonical (.list vs) ++ rest) = 2 := by
  simp [kindOf, canonical_list]

/-- The text of a mapping begins with a brace. -/
theorem kindOf_object (fs : List (String × Value)) (rest : List Char) :
    kindOf (canonical (.object fs) ++ rest) = 3 := by
  simp [kindOf, canonical_object]

/-- Plain data is a scalar, a text, a list or a mapping of plain data. -/
theorem isPlain_cases {v : Value} (plain : IsPlain v) :
    IsScalar v ∨ (∃ s, v = .str s) ∨ (∃ vs, v = .list vs ∧ ArePlain vs) ∨
      ∃ fs, v = .object fs ∧ (Fields.keys fs).Nodup ∧ FieldsArePlain fs := by
  cases v with
  | null => exact Or.inl .null
  | bool b => cases b; exacts [Or.inl .no, Or.inl .yes]
  | int i => exact Or.inl (.int i)
  | float x =>
    cases x with
    | nan => exact absurd rfl plain
    | infinite n => exact Or.inl (.infinite n)
    | finite n u rep => exact Or.inl (.finite n u rep)
  | str s => exact Or.inr (Or.inl ⟨s, rfl⟩)
  | list vs => exact Or.inr (Or.inr (Or.inl ⟨vs, rfl, plain⟩))
  | object fs => exact Or.inr (Or.inr (Or.inr ⟨fs, rfl, plain⟩))
  | _ => exact absurd plain id

/-- The text of plain data begins a part of a list. -/
theorem starts_canonical {v : Value} (plain : IsPlain v) : Starts (canonical v) := by
  rcases isPlain_cases plain with scalar | ⟨s, rfl⟩ | ⟨vs, rfl, _⟩ | ⟨fs, rfl, _⟩
  · exact starts_word (scalar_text scalar).1 (scalar_text scalar).2
  · have text := Text.toList_jsonQuoted s []
    rw [List.append_nil] at text
    exact ⟨'"', _, text, by decide⟩
  · exact ⟨'[', _, canonical_list vs, by decide⟩
  · exact ⟨'\x7b', _, canonical_object fs, by decide⟩

/-- The text of an entry begins a part of a mapping. -/
theorem starts_entry (e : String × Value) : Starts (canonicalEntry e) :=
  ⟨'"', _, Text.toList_jsonQuoted e.1 _, by decide⟩

/-- Of two scalars the texts tell where they end, and are one text only if the scalars are one. -/
theorem scalar_apart {v w : Value} (scalarV : IsScalar v) (scalarW : IsScalar w) :
    Apart (canonical v) (canonical w) (v = w) := by
  intro rest more endsR endsM same
  have apart := word_apart (scalar_text scalarV).2 (scalar_text scalarW).2
  obtain ⟨texts, ends⟩ := apart rest more endsR endsM same
  exact ⟨scalar_injective scalarV scalarW texts, ends⟩

/-- The text of a scalar is told apart from that of any other plain data. -/
theorem scalar_apart_plain {v w : Value} (scalarV : IsScalar v) (plainW : IsPlain w) :
    Apart (canonical v) (canonical w) (SameData v w) := by
  intro rest more endsR endsM same
  have kinds := congrArg kindOf same
  rw [kindOf_scalar scalarV] at kinds
  have data : v = w → SameData v w := by
    rintro rfl
    cases scalarV <;> rfl
  rcases isPlain_cases plainW with scalarW | ⟨s, rfl⟩ | ⟨ws, rfl, _⟩ | ⟨gs, rfl, _⟩
  · exact (scalar_apart scalarV scalarW rest more endsR endsM same).imp_left data
  · rw [kindOf_str] at kinds; cases kinds
  · rw [kindOf_list] at kinds; cases kinds
  · rw [kindOf_object] at kinds; cases kinds

/-- The text of a text is told apart from that of any other plain data. -/
theorem str_apart (s : String) {w : Value} (plainW : IsPlain w) :
    Apart (canonical (.str s)) (canonical w) (SameData (.str s) w) := by
  intro rest more _ _ same
  have kinds := congrArg kindOf same
  rw [kindOf_str] at kinds
  rcases isPlain_cases plainW with scalarW | ⟨t, rfl⟩ | ⟨ws, rfl, _⟩ | ⟨gs, rfl, _⟩
  · rw [kindOf_scalar scalarW] at kinds; cases kinds
  · rw [canonical_str, canonical_str] at same
    obtain ⟨rfl, ends⟩ := Text.jsonQuoted_append_inj same
    exact ⟨rfl, ends⟩
  · rw [kindOf_list] at kinds; cases kinds
  · rw [kindOf_object] at kinds; cases kinds

/-- The texts of entries are told apart by names and values. -/
theorem entry_apart {e f : String × Value}
    (apart : Apart (canonical e.2) (canonical f.2) (SameData e.2 f.2)) :
    Apart (canonicalEntry e) (canonicalEntry f) (SameEntry e f) := by
  intro rest more endsR endsM same
  simp only [canonicalEntry, List.append_assoc, List.cons_append] at same
  obtain ⟨names, values⟩ := Text.jsonQuoted_append_inj same
  obtain ⟨data, ends⟩ := apart rest more endsR endsM (List.cons.inj values).2
  exact ⟨⟨names, data⟩, ends⟩

mutual

/-- **The text of plain data is read apart from what follows it**, and determines the data up to
the order of keys. -/
theorem canonical_apart : ∀ v : Value, IsPlain v → ∀ w : Value, IsPlain w →
    Apart (canonical v) (canonical w) (SameData v w)
  | .list vs, plainV, w, plainW => by
    intro rest more endsR endsM same
    have kinds := congrArg kindOf same
    rw [kindOf_list] at kinds
    rcases isPlain_cases plainW with scalar | ⟨s, rfl⟩ | ⟨ws, rfl, plainWs⟩ | ⟨gs, rfl, _⟩
    · rw [kindOf_scalar scalar] at kinds; cases kinds
    · rw [kindOf_str] at kinds; cases kinds
    · rw [canonical_list, canonical_list] at same
      simp only [List.cons_append, List.append_assoc, List.cons.injEq, true_and,
        List.nil_append] at same
      have plainWs := (arePlain_iff ws).1 plainWs
      have plainVs := (arePlain_iff vs).1 plainV
      obtain ⟨pairs, ends⟩ := commas_append_inj (by decide) vs ws
        (fun v member => starts_canonical (plainVs v member))
        (fun w member => starts_canonical (plainWs w member))
        (fun v inV w inW => canonical_apart_list vs plainV v inV w (plainWs w inW)) same
      exact ⟨⟨ws, rfl, (sameItems_iff vs ws).2 pairs⟩, ends⟩
    · rw [kindOf_object] at kinds; cases kinds
  | .object fs, plainV, w, plainW => by
    intro rest more endsR endsM same
    have kinds := congrArg kindOf same
    rw [kindOf_object] at kinds
    rcases isPlain_cases plainW with scalar | ⟨s, rfl⟩ | ⟨ws, rfl, _⟩ | ⟨gs, rfl, _, plainGs⟩
    · rw [kindOf_scalar scalar] at kinds; cases kinds
    · rw [kindOf_str] at kinds; cases kinds
    · rw [kindOf_list] at kinds; cases kinds
    · rw [canonical_object, canonical_object] at same
      simp only [List.cons_append, List.append_assoc, List.cons.injEq, true_and,
        List.nil_append] at same
      have plainGs := (fieldsArePlain_iff gs).1 plainGs
      obtain ⟨pairs, ends⟩ := commas_append_inj (by decide) (Fields.sorted fs) (Fields.sorted gs)
        (fun e _ => starts_entry e) (fun e _ => starts_entry e)
        (fun e inE f inF => entry_apart (canonical_apart_fields fs plainV.2 e
          ((Fields.sorted_perm fs).mem_iff.1 inE) f.2
          (plainGs f ((Fields.sorted_perm gs).mem_iff.1 inF)))) same
      obtain ⟨hs, aligned, moved⟩ :=
        List.perm_comp_forall₂ (Fields.sorted_perm fs).symm pairs
      exact ⟨⟨gs, hs, rfl, moved.trans (Fields.sorted_perm gs), (sameFields_iff fs hs).2 aligned⟩,
        ends⟩
  | .str s, _, w, plainW => str_apart s plainW
  | .null, _, w, plainW => scalar_apart_plain .null plainW
  | .bool true, _, w, plainW => scalar_apart_plain .yes plainW
  | .bool false, _, w, plainW => scalar_apart_plain .no plainW
  | .int i, _, w, plainW => scalar_apart_plain (.int i) plainW
  | .float .nan, plainV, _, _ => absurd rfl plainV
  | .float (.infinite n), _, w, plainW => scalar_apart_plain (.infinite n) plainW
  | .float (.finite n u rep), _, w, plainW => scalar_apart_plain (.finite n u rep) plainW

/-- The same for each element of a list. -/
theorem canonical_apart_list : ∀ vs : List Value, ArePlain vs → ∀ v ∈ vs, ∀ w : Value, IsPlain w →
    Apart (canonical v) (canonical w) (SameData v w)
  | [], _, _, inside => nomatch inside
  | v :: vs, plain, x, inside => by
    rcases List.mem_cons.1 inside with first | later
    · rw [first]
      exact canonical_apart v plain.1
    · exact canonical_apart_list vs plain.2 x later

/-- The same for each value of a mapping. -/
theorem canonical_apart_fields : ∀ fs : List (String × Value), FieldsArePlain fs → ∀ e ∈ fs,
    ∀ w : Value, IsPlain w → Apart (canonical e.2) (canonical w) (SameData e.2 w)
  | [], _, _, inside => nomatch inside
  | (k, v) :: fs, plain, e, inside => by
    rcases List.mem_cons.1 inside with first | later
    · rw [first]
      exact canonical_apart v plain.1
    · exact canonical_apart_fields fs plain.2 e later

end

/-- Mappings with the same entries have one text, in whatever order the entries come. -/
theorem entries_of_same {fs gs hs : Fields Value} (own : fs.keys.Nodup)
    (values : fs.mapValues canonical = hs.mapValues canonical) (moved : hs.Perm gs) :
    (Fields.sorted fs).map canonicalEntry = (Fields.sorted gs).map canonicalEntry := by
  have ownH : (hs.mapValues canonical).keys.Nodup := by
    rwa [← values, Fields.keys_mapValues]
  have movedTexts : (hs.mapValues canonical).Perm (gs.mapValues canonical) :=
    moved.map fun e : String × Value => (e.1, canonical e.2)
  have sorted := Fields.sorted_eq_of_perm ownH movedTexts
  have texts : ∀ es : Fields Value, es.map canonicalEntry =
      (es.mapValues canonical).map fun e => (Text.jsonQuoted true e.1).toList ++ ':' :: e.2 := by
    intro es
    rw [Fields.mapValues, List.map_map]
    rfl
  rw [texts, texts, ← Fields.sorted_mapValues, ← Fields.sorted_mapValues, values, sorted]

mutual

/-- The same data has one text. -/
theorem canonical_of_same : ∀ v : Value, IsPlain v → ∀ w : Value, SameData v w →
    canonical v = canonical w
  | .list vs, plain, _, ⟨ws, rfl, items⟩ => by
    rw [canonical_list, canonical_list, canonical_of_sameItems vs plain ws items]
  | .object fs, plain, _, ⟨gs, hs, rfl, moved, fields⟩ => by
    have values := canonical_of_sameFields fs plain.2 hs fields
    rw [canonical_object, canonical_object, entries_of_same plain.1 values moved]
  | .null, _, _, rfl => rfl
  | .bool _, _, _, rfl => rfl
  | .int _, _, _, rfl => rfl
  | .float _, _, _, rfl => rfl
  | .str _, _, _, rfl => rfl

/-- The same data in lists, element by element. -/
theorem canonical_of_sameItems : ∀ vs : List Value, ArePlain vs → ∀ ws : List Value,
    SameItems vs ws → vs.map canonical = ws.map canonical
  | [], _, _, rfl => rfl
  | v :: vs, plain, _, ⟨x, xs, rfl, same, others⟩ => by
    rw [List.map_cons, List.map_cons, canonical_of_same v plain.1 x same,
      canonical_of_sameItems vs plain.2 xs others]

/-- The same data in mappings, value by value. -/
theorem canonical_of_sameFields : ∀ fs : Fields Value, FieldsArePlain fs → ∀ gs : Fields Value,
    SameFields fs gs → fs.mapValues canonical = gs.mapValues canonical
  | [], _, _, rfl => rfl
  | (k, v) :: fs, plain, _, ⟨x, hs, rfl, same, others⟩ => by
    have first := canonical_of_same v plain.1 x same
    have rest := canonical_of_sameFields fs plain.2 hs others
    simp only [Fields.mapValues, List.map_cons, first] at rest ⊢
    rw [rest]

end

/-- **Plain values have one canonical text exactly if they are the same data up to the order of
keys.** -/
theorem json_eq_iff {v w : Value} (plainV : IsPlain v) (plainW : IsPlain w) :
    v.json .canonical = w.json .canonical ↔ SameData v w := by
  constructor
  · intro same
    have texts : canonical v ++ [] = canonical w ++ [] := congrArg (·.toList ++ []) same
    exact (canonical_apart v plainV w plainW [] [] (Or.inl rfl) (Or.inl rfl) texts).1
  · intro same
    exact String.toList_inj.1 (canonical_of_same v plainV w same)

end Value

end ShapeContract
