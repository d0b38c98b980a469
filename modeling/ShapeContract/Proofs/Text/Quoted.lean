import ShapeContract.Text.Quoted
import ShapeContract.Value.JsonReader

/-!
# JSON strings read back

A text written as a JSON string with ASCII escapes is read back by the reader, whatever follows it.
So the text and what follows it are determined by the characters: `jsonQuoted_append_inj`.
-/

set_option autoImplicit false

namespace ShapeContract.Text

open JsonReader (hexValue? unit? readUnit readUnicode readString scalarOf)

theorem hexValue?_hexDigit {d : Nat} (small : d < 16) : hexValue? (hexDigit d) = some d := by
  have all : ∀ d < 16, hexValue? (hexDigit d) = some d := by decide
  exact all d small

theorem hex_four (n : Nat) :
    hex 4 n = [hexDigit (n / 4096 % 16), hexDigit (n / 256 % 16), hexDigit (n / 16 % 16),
      hexDigit (n % 16)] := by
  simp [hex, Nat.div_div_eq_div_mul]

/-- The four digits of a 16-bit unit. -/
theorem unit?_hex {n : Nat} (small : n < 0x10000) : unit? (hex 4 n) = some n := by
  have first := hexValue?_hexDigit (d := n / 4096 % 16) (by omega)
  have second := hexValue?_hexDigit (d := n / 256 % 16) (by omega)
  have third := hexValue?_hexDigit (d := n / 16 % 16) (by omega)
  have last := hexValue?_hexDigit (d := n % 16) (by omega)
  have sum : n / 4096 % 16 * 4096 + n / 256 % 16 * 256 + n / 16 % 16 * 16 + n % 16 = n := by omega
  rw [hex_four]
  simp [unit?, first, second, third, last, sum]

theorem length_hex (width n : Nat) : (hex width n).length = width := by
  induction width generalizing n with
  | zero => rfl
  | succ width ih => simp [hex, ih]

theorem readUnit_hex {n : Nat} (small : n < 0x10000) (c : Char) (rest : List Char) :
    readUnit (hex 4 n ++ c :: rest) = .ok (n, c :: rest) := by
  rw [readUnit, List.take_left' (length_hex 4 n), List.drop_left' (length_hex 4 n),
    unit?_hex small]

theorem scalarOf_toNat (c : Char) : scalarOf c.toNat = c := by
  have valid : c.toNat < 0xd800 ∨ 0xdfff < c.toNat := by
    rcases c.valid with low | high
    · exact Or.inl low
    · exact Or.inr high.1
  have outside : ¬ (0xd800 ≤ c.toNat ∧ c.toNat ≤ 0xdfff) := by omega
  rw [scalarOf, if_neg outside, Char.ofNat_toNat]

theorem toNat_valid (c : Char) : c.toNat < 0xd800 ∨ 0xdfff < c.toNat ∧ c.toNat < 0x110000 := by
  have valid := c.valid
  simp only [UInt32.isValidChar, Nat.isValidChar] at valid
  exact valid

theorem readUnicode_small {n : Nat} (small : n < 0x10000) (low : ¬ (0xd800 ≤ n ∧ n < 0xdc00))
    (next : Char) (rest : List Char) :
    readUnicode (hex 4 n ++ next :: rest) = .ok (scalarOf n, 4) := by
  rw [readUnicode, readUnit_hex small]
  simp [bind, Except.bind, pure, Except.pure, low]

/-- A high and a low unit make one character. -/
theorem readUnicode_pair {u v : Nat} (high : 0xd800 ≤ u ∧ u < 0xdc00) (low : 0xdc00 ≤ v ∧ v < 0xe000)
    (next : Char) (rest : List Char) :
    readUnicode (hex 4 u ++ '\\' :: 'u' :: hex 4 v ++ next :: rest) =
      .ok (Char.ofNat (0x10000 + (u - 0xd800) * 0x400 + (v - 0xdc00)), 10) := by
  have front : (hex 4 v ++ next :: rest).take 4 = hex 4 v := List.take_left' (length_hex 4 v)
  have long : (hex 4 v ++ next :: rest).length > 4 := by simp [length_hex]
  rw [readUnicode, List.append_assoc, List.cons_append, List.cons_append,
    readUnit_hex (by omega)]
  simp only [bind, Except.bind, pure, Except.pure, if_pos high, if_pos long, front,
    unit?_hex (show v < 0x10000 by omega), if_pos low]

/-- The reader takes the escape of a character for the character. -/
theorem readUnicode_unitEscapes (c next : Char) (rest : List Char) :
    ∃ digits, unitEscapes c = '\\' :: 'u' :: digits ∧
      readUnicode (digits ++ next :: rest) = .ok (c, digits.length) := by
  have valid := toNat_valid c
  by_cases small : c.toNat < 0x10000
  · refine ⟨hex 4 c.toNat, by simp [unitEscapes, small], ?_⟩
    rw [readUnicode_small small (by omega), scalarOf_toNat, length_hex]
  · -- Beyond 16 bits: a high unit in the first range, a low one in the second.
    have high : 0xd800 ≤ 0xd800 + (c.toNat - 0x10000) / 0x400 ∧
        0xd800 + (c.toNat - 0x10000) / 0x400 < 0xdc00 := by omega
    have low : 0xdc00 ≤ 0xdc00 + (c.toNat - 0x10000) % 0x400 ∧
        0xdc00 + (c.toNat - 0x10000) % 0x400 < 0xe000 := by omega
    have whole : 0x10000 + (0xd800 + (c.toNat - 0x10000) / 0x400 - 0xd800) * 0x400 +
        (0xdc00 + (c.toNat - 0x10000) % 0x400 - 0xdc00) = c.toNat := by omega
    have read := readUnicode_pair high low next rest
    rw [whole, Char.ofNat_toNat] at read
    refine ⟨hex 4 (0xd800 + (c.toNat - 0x10000) / 0x400) ++
      '\\' :: 'u' :: hex 4 (0xdc00 + (c.toNat - 0x10000) % 0x400), ?_, ?_⟩
    · simp only [unitEscapes, if_neg small, List.cons_append]
    · rw [read]
      simp only [List.length_append, List.length_cons, length_hex]

theorem readString_skip (acc : List Char) (used rest : List Char) :
    readString used.length acc (used ++ rest) = readString 0 acc rest := by
  induction used with
  | nil => rfl
  | cons c used ih => simpa [readString] using ih

/-- One written character is read as itself, with something after it. -/
theorem readString_jsonChar (acc : List Char) (c next : Char) (rest : List Char) :
    readString 0 acc (jsonChar true c ++ next :: rest) = readString 0 (c :: acc) (next :: rest) := by
  have escape : readString 0 acc (unitEscapes c ++ next :: rest) =
      readString 0 (c :: acc) (next :: rest) := by
    obtain ⟨digits, written, read⟩ := readUnicode_unitEscapes c next rest
    have skipped := readString_skip (c :: acc) ('u' :: digits) (next :: rest)
    rw [written]
    simpa [readString, read, bind, Except.bind] using skipped
  unfold jsonChar
  split
  next same => subst same; simp [readString, JsonReader.simpleEscape?]
  split
  next same => subst same; simp [readString, JsonReader.simpleEscape?]
  split
  next same => subst same; simp [readString, JsonReader.simpleEscape?]
  split
  next same => subst same; simp [readString, JsonReader.simpleEscape?]
  split
  next same => subst same; simp [readString, JsonReader.simpleEscape?]
  split
  next code =>
    have same : c = Char.ofNat 12 := by rw [← code, Char.ofNat_toNat]
    subst same
    simp [readString, JsonReader.simpleEscape?]
  split
  next code =>
    have same : c = Char.ofNat 8 := by rw [← code, Char.ofNat_toNat]
    subst same
    simp [readString, JsonReader.simpleEscape?]
  split
  next => exact escape
  split
  next => exact escape
  next quote slash _ _ _ _ _ control _ => simp [readString, quote, slash, control]

theorem readString_written (cs acc rest : List Char) :
    readString 0 acc (cs.flatMap (jsonChar true) ++ '"' :: rest) =
      .ok (String.ofList (acc.reverse ++ cs), rest) := by
  induction cs generalizing acc with
  | nil => simp [readString]
  | cons c cs ih =>
    obtain ⟨next, more, tail⟩ : ∃ next more,
        cs.flatMap (jsonChar true) ++ '"' :: rest = next :: more :=
      List.exists_cons_of_ne_nil (by simp)
    rw [List.flatMap_cons, List.append_assoc, tail, readString_jsonChar, ← tail, ih]
    simp

theorem toList_jsonQuoted (s : String) (rest : List Char) :
    (jsonQuoted true s).toList ++ rest = '"' :: (s.toList.flatMap (jsonChar true) ++ '"' :: rest) := by
  simp [jsonQuoted]

/-- **A JSON string and what follows it are read apart.** -/
theorem readString_jsonQuoted (s : String) (rest : List Char) :
    ∃ body, (jsonQuoted true s).toList ++ rest = '"' :: body ∧ readString 0 [] body = .ok (s, rest) := by
  refine ⟨_, toList_jsonQuoted s rest, ?_⟩
  simpa using readString_written s.toList [] rest

theorem jsonQuoted_append_inj {s t : String} {rest more : List Char}
    (same : (jsonQuoted true s).toList ++ rest = (jsonQuoted true t).toList ++ more) :
    s = t ∧ rest = more := by
  obtain ⟨body, front, readS⟩ := readString_jsonQuoted s rest
  obtain ⟨other, begins, readT⟩ := readString_jsonQuoted t more
  rw [front, begins, List.cons.injEq] at same
  rw [same.2, readT, Except.ok.injEq, Prod.mk.injEq] at readS
  exact ⟨readS.1.symm, readS.2.symm⟩

end ShapeContract.Text
