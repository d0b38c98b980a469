import ShapeContract.Text.Classes

/-!
# White space at the ends of a text

Trimming takes away the blanks around a text that neither begins nor ends with one: `trim_padded`.
-/

set_option autoImplicit false

namespace ShapeContract.Text

/-- White space and nothing else. -/
def IsBlankText (cs : List Char) : Prop := ∀ c ∈ cs, isBlank c = true

/-- A text that neither begins nor ends with white space, and is not empty. -/
structure IsTight (cs : List Char) : Prop where
  some : cs ≠ []
  first : ∀ c ∈ cs.head?, isBlank c = false
  last : ∀ c ∈ cs.getLast?, isBlank c = false

theorem isTight_iff {cs : List Char} : IsTight cs ↔
    cs ≠ [] ∧ (cs.head?.all fun c => !isBlank c) = true ∧
      (cs.getLast?.all fun c => !isBlank c) = true := by
  simp only [Option.all_eq_true, Bool.not_eq_true']
  exact ⟨fun tight => ⟨tight.some, tight.first, tight.last⟩,
    fun parts => ⟨parts.1, parts.2.1, parts.2.2⟩⟩

instance (cs : List Char) : Decidable (IsTight cs) := decidable_of_iff' _ isTight_iff

theorem trimStart_append {ws : List Char} (blank : IsBlankText ws) (cs : List Char) :
    trimStart (ws ++ cs) = trimStart cs := by
  induction ws with
  | nil => rfl
  | cons w ws ih =>
    obtain ⟨here, later⟩ := List.forall_mem_cons.1 blank
    rw [List.cons_append, trimStart, if_pos here, ih later]

theorem trimStart_blank {ws : List Char} (blank : IsBlankText ws) : trimStart ws = [] := by
  have whole := trimStart_append blank []
  rwa [List.append_nil] at whole

theorem trimStart_of_first {cs : List Char} (first : ∀ c ∈ cs.head?, isBlank c = false) :
    trimStart cs = cs := by
  cases cs with
  | nil => rfl
  | cons c rest => rw [trimStart, first c rfl, if_neg Bool.false_ne_true]

theorem isBlankText_reverse {ws : List Char} (blank : IsBlankText ws) : IsBlankText ws.reverse :=
  fun c inside => blank c (List.mem_reverse.1 inside)

/-- Trimming takes the blanks away that stand around a text. -/
theorem trim_padded {before cs after : List Char} (leading : IsBlankText before)
    (trailing : IsBlankText after) (tight : IsTight cs) : trim (before ++ cs ++ after) = cs := by
  obtain ⟨c, rest, rfl⟩ := List.exists_cons_of_ne_nil tight.some
  have first : ∀ d ∈ (c :: rest ++ after).head?, isBlank d = false := tight.first
  have last : ∀ d ∈ (c :: rest).reverse.head?, isBlank d = false := by
    rw [List.head?_reverse]
    exact tight.last
  rw [trim, trimEnd, List.append_assoc, trimStart_append leading, trimStart_of_first first,
    List.reverse_append, trimStart_append (isBlankText_reverse trailing), trimStart_of_first last,
    List.reverse_reverse]

theorem trim_blank {ws : List Char} (blank : IsBlankText ws) : trim ws = [] := by
  rw [trim, trimStart_blank blank]
  rfl

end ShapeContract.Text
