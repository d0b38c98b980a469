import ShapeContract.Wire.Emission
import ShapeContract.Pattern.Matcher
import ShapeContract.Pattern.Reader

/-!
# The pattern of object identifiers

What the search for `Wire.objectIdPattern` accepts, said without regular expressions: twenty-four
hexadecimal digits and at most one line break after them. The anchor at the start lets only the
first place match; from there the repetition is followed digit by digit.
-/

set_option autoImplicit false

namespace ShapeContract.Pattern

/-- What follows a number of hexadecimal digits, if the text begins with so many. -/
def afterHexDigits? : Nat → List Char → Option (List Char)
  | 0, cs => some cs
  | _ + 1, [] => none
  | n + 1, c :: cs => if isHex c then afterHexDigits? n cs else none

/-- Whether a text is an object identifier; one line break may end it. -/
def isObjectId (s : String) : Bool :=
  match afterHexDigits? 24 s.toList with
  | some [] => true
  | some ['\n'] => true
  | _ => false

def hexDigits : CharTest :=
  .oneOf false [.range 48 57, .range 97 102, .range 65 70] .exact false

def objectIdNode : Node :=
  .seq [.anchor .textStart, .repeated .greedy 24 (some 24) (.char hexDigits), .anchor .lastLineEnd]

theorem compile_objectIdPattern [CharacterNames] :
    compile {} Wire.objectIdPattern = .ok ⟨Wire.objectIdPattern, {}, objectIdNode⟩ := by
  rfl

theorem hexDigits_holds (c : Char) : hexDigits.holds c.toNat = isHex c := by
  simp [CharTest.holds, hexDigits, ClassItem.cased, ClassItem.holds, CaseRule.partners,
    CaseRule.sources, CaseRule.fold, isHex, Bool.or_assoc]

theorem codeAt?_toArray (cs : List Char) (i : Nat) :
    codeAt? cs.toArray i = (cs.drop i).head?.map Char.toNat := by
  simp [codeAt?, List.head?_drop]

theorem drop_of_afterHexDigits? {n : Nat} {cs rest : List Char}
    (h : afterHexDigits? n cs = some rest) : cs.drop n = rest ∧ cs.length = n + rest.length := by
  induction n generalizing cs with
  | zero =>
    cases h
    exact ⟨rfl, by simp⟩
  | succ n ih =>
    cases cs with
    | nil => cases h
    | cons c cs =>
      by_cases digit : isHex c
      · rw [afterHexDigits?, if_pos digit] at h
        obtain ⟨dropped, size⟩ := ih h
        exact ⟨by simpa using dropped, by simp [size]; omega⟩
      · rw [afterHexDigits?, if_neg digit] at h
        cases h

theorem run_hexDigits (cs : List Char) (k : Continuation) (s : Place) :
    run cs.toArray (.char hexDigits) k s = match cs.drop s.pos with
      | c :: _ => if isHex c then k (s.moveTo (s.pos + 1)) else none
      | [] => none := by
  cases rest : cs.drop s.pos <;> simp [run, codeAt?_toArray, rest, hexDigits_holds]

/-- The rounds that are left of a fixed number of digits. -/
theorem rounds_hexDigits (cs : List Char) (next : Continuation) (m : Nat) :
    ∀ (budget count : Nat) (last : Option Nat) (s : Place), count + m = 24 → m < budget →
      rounds false 24 (some 24) (run cs.toArray (.char hexDigits)) next budget count last s =
        (afterHexDigits? m (cs.drop s.pos)).bind fun _ => next (s.moveTo (s.pos + m)) := by
  induction m with
  | zero =>
    intro budget count last s whole enough
    obtain ⟨budget, rfl⟩ : ∃ b, budget = b + 1 := ⟨budget - 1, by omega⟩
    obtain rfl : count = 24 := by omega
    simp [rounds, afterHexDigits?, Place.moveTo]
  | succ m ih =>
    intro budget count last s whole enough
    obtain ⟨budget, rfl⟩ : ∃ b, budget = b + 1 := ⟨budget - 1, by omega⟩
    have short : count < 24 := by omega
    simp only [rounds, if_pos short, run_hexDigits]
    cases rest : cs.drop s.pos with
    | nil => rfl
    | cons c tail =>
      have tail_eq : cs.drop (s.pos + 1) = tail := by
        rw [← List.drop_drop, rest]
        rfl
      simp only [afterHexDigits?]
      by_cases digit : isHex c
      · rw [if_pos digit, if_pos digit, ih budget (count + 1) last _ (by omega) (by omega)]
        simp only [Place.moveTo, tail_eq, Nat.add_assoc, Nat.add_comm 1 m]
      · rw [if_neg digit, if_neg digit]
        rfl

/-- From the start of a text the expression matches exactly the object identifiers. -/
theorem run_objectIdNode (s : String) :
    (run s.toList.toArray objectIdNode some ⟨0, []⟩).isSome = isObjectId s := by
  have body := rounds_hexDigits s.toList
    (fun t => runAll s.toList.toArray [.anchor .lastLineEnd] some t) 24
    (24 + s.toList.length + 2) 0 none ⟨0, []⟩ rfl (by omega)
  have start : run s.toList.toArray objectIdNode some ⟨0, []⟩ =
      rounds false 24 (some 24) (run s.toList.toArray (.char hexDigits))
        (fun t => runAll s.toList.toArray [.anchor .lastLineEnd] some t)
        (24 + s.toList.length + 2) 0 none ⟨0, []⟩ := by
    simp [objectIdNode, run, runAll, Anchor.holds]
  rw [start, body, isObjectId, List.drop_zero]
  cases digits : afterHexDigits? 24 s.toList with
  | none => rfl
  | some rest =>
    obtain ⟨dropped, size⟩ := drop_of_afterHexDigits? digits
    simp only [Option.bind_some, Place.moveTo, runAll, run, Anchor.holds, codeAt?_toArray,
      List.size_toArray, Nat.zero_add, dropped, size]
    match rest with
    | [] => simp
    | [c] =>
      by_cases h : c = '\n'
      · subst h
        simp
      · have code : c.toNat ≠ 10 := fun e => h (Char.toNat_inj.1 e)
        simp [h, code]
    | c :: d :: more =>
      have longer : ¬ 25 = 24 + (more.length + 1 + 1) := by omega
      simp [longer]

theorem searchFrom_of_le (text : Array Char) (n : Nat) (h : n ≤ text.size) :
    searchFrom objectIdNode text n = false := by
  induction n with
  | zero => rfl
  | succ n ih =>
    have later : text.size - n ≠ 0 := by omega
    rw [searchFrom, ih (by omega)]
    simp [objectIdNode, run, runAll, Anchor.holds, later]

theorem found_objectIdNode (s : String) : found objectIdNode s = isObjectId s := by
  simp only [found, searchFrom, Nat.sub_self, searchFrom_of_le _ _ (Nat.le_refl _), Bool.or_false]
  exact run_objectIdNode s

end ShapeContract.Pattern
