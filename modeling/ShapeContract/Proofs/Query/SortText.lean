import ShapeContract.Proofs.Query.Matching
import ShapeContract.Proofs.Query.Ordering
import ShapeContract.Proofs.Rule.Path
import ShapeContract.Proofs.Text.Trimmed

/-!
# Sort orders as texts

An order can be written in many ways: an ascending field with its direction or without, the words in
any letter case, blanks around everything, commas without a field between them. `SortOrder.Lists` is
the relation of an order to the pieces of its texts, and `SortOrder.ofValue_listed` says that each of
them is read as the order.
-/

set_option autoImplicit false

namespace ShapeContract

namespace Text

/-! ## Pieces -/

/-- Texts without the separator are the pieces of what they make together. -/
theorem pieces_glue {sep : Char} {parts : List (List Char)} (any : parts ≠ [])
    (plain : ∀ part ∈ parts, sep ∉ part) : pieces sep (glue sep parts) = parts := by
  induction parts using glue.induct with
  | case1 => exact absurd rfl any
  | case2 part => simp [glue, pieces, piecesAux_of_notMem (plain part List.mem_cons_self)]
  | case3 part rest some ih =>
    obtain ⟨here, later⟩ := List.forall_mem_cons.1 plain
    rw [glue, pieces, piecesAux_append, piecesAux_of_notMem here, ih some later]
    · rfl
    · exact some

/-- A text without the separator is not cut. -/
theorem cutFirst_of_notMem {sep : Char} {cs : List Char} (plain : sep ∉ cs) :
    cutFirst sep cs = (cs, none) := by
  induction cs with
  | nil => rfl
  | cons c rest ih =>
    obtain ⟨other, later⟩ := not_or.1 (mt List.mem_cons.2 plain)
    rw [cutFirst, if_neg (Ne.symm other), ih later]

/-- Otherwise the cut is at the first one. -/
theorem cutFirst_append {sep : Char} {cs : List Char} (plain : sep ∉ cs) (rest : List Char) :
    cutFirst sep (cs ++ sep :: rest) = (cs, some rest) := by
  induction cs with
  | nil => simp [cutFirst]
  | cons c cs ih =>
    obtain ⟨other, later⟩ := not_or.1 (mt List.mem_cons.2 plain)
    rw [List.cons_append, cutFirst, if_neg (Ne.symm other), ih later]

/-! ## Letter case -/

/-- A word of small letters, each of which may be written as a capital. -/
def InAnyCase (word cs : List Char) : Prop :=
  List.Forall₂ (fun small c => c = small ∨ c = small.toUpper) word cs

/-- What holds of each letter, small and capital, holds of the word in any case. -/
theorem InAnyCase.forall {word cs : List Char} (written : InAnyCase word cs) {p : Char → Prop}
    (each : ∀ small ∈ word, p small ∧ p small.toUpper) : ∀ c ∈ cs, p c := by
  induction written with
  | nil => exact fun _ => nofun
  | cons here _ ih =>
    obtain ⟨own, later⟩ := List.forall_mem_cons.1 each
    refine List.forall_mem_cons.2 ⟨?_, ih later⟩
    rcases here with rfl | rfl
    · exact own.1
    · exact own.2

/-- Lowering the letters of a word in any case gives the word. -/
theorem InAnyCase.lower {word cs : List Char} (written : InAnyCase word cs)
    (small : ∀ c ∈ word, lowerAscii c = c ∧ lowerAscii c.toUpper = c) :
    cs.map lowerAscii = word := by
  induction written with
  | nil => rfl
  | cons here _ ih =>
    obtain ⟨own, later⟩ := List.forall_mem_cons.1 small
    rw [List.map_cons, ih later]
    rcases here with rfl | rfl
    · rw [own.1]
    · rw [own.2]

end Text

namespace SortOrder

open Text (IsBlankText IsTight InAnyCase)

/-! ## Texts of an order -/

/-- A field that can be written in a text. -/
structure IsWritable (name : String) : Prop where
  tight : IsTight name.toList
  comma : ',' ∉ name.toList
  colon : ':' ∉ name.toList

/-- A name can be written in a sort text when it is tight and holds neither comma nor colon. -/
theorem isWritable_iff {name : String} :
    IsWritable name ↔ IsTight name.toList ∧ ',' ∉ name.toList ∧ ':' ∉ name.toList :=
  ⟨fun writable => ⟨writable.tight, writable.comma, writable.colon⟩,
    fun parts => ⟨parts.1, parts.2.1, parts.2.2⟩⟩

instance (name : String) : Decidable (IsWritable name) := decidable_of_iff' _ isWritable_iff

def directionWord (ascending : Bool) : List Char := (if ascending then "asc" else "desc").toList

/-- What may follow a field: its direction, which may be left out if it is ascending. -/
inductive Directs : Bool → List Char → Prop
  | silent : Directs true []
  | word {ascending : Bool} {cs : List Char} (written : InAnyCase (directionWord ascending) cs) :
    Directs ascending (':' :: cs)

/-- The pieces of a text of an order, some of which may be blank. -/
inductive Lists : Fields Bool → List (List Char) → Prop
  | nil : Lists [] []
  | blank {order : Fields Bool} {token : List Char} {tokens : List (List Char)}
    (blank : IsBlankText token) (later : Lists order tokens) : Lists order (token :: tokens)
  | field {name : String} {ascending : Bool} {order : Fields Bool} {before tail after : List Char}
    {tokens : List (List Char)} (writable : IsWritable name) (directs : Directs ascending tail)
    (leading : IsBlankText before) (trailing : IsBlankText after) (later : Lists order tokens) :
    Lists ((name, ascending) :: order) ((before ++ (name.toList ++ tail) ++ after) :: tokens)

variable {name : String} {ascending : Bool} {tail : List Char}

/-! ## Reading a token -/

theorem isBlank_comma : Text.isBlank ',' = false := by decide

theorem comma_notMem_blank {ws : List Char} (blank : IsBlankText ws) : ',' ∉ ws :=
  fun inside => Bool.false_ne_true (isBlank_comma.symm.trans (blank _ inside))

/-- The direction words hold no blank and no comma in either case. -/
theorem directionWord_plain : ∀ small ∈ directionWord ascending,
    (Text.isBlank small = false ∧ small ≠ ',') ∧
      (Text.isBlank small.toUpper = false ∧ small.toUpper ≠ ',') := by
  have every : (directionWord ascending).all fun small => decide
      ((Text.isBlank small = false ∧ small ≠ ',') ∧
        (Text.isBlank small.toUpper = false ∧ small.toUpper ≠ ',')) := by
    cases ascending <;> decide
  exact fun small inside => of_decide_eq_true (List.all_eq_true.1 every small inside)

theorem directionWord_small : ∀ small ∈ directionWord ascending,
    Text.lowerAscii small = small ∧ Text.lowerAscii small.toUpper = small := by
  have every : (directionWord ascending).all fun small => decide
      (Text.lowerAscii small = small ∧ Text.lowerAscii small.toUpper = small) := by
    cases ascending <;> decide
  exact fun small inside => of_decide_eq_true (List.all_eq_true.1 every small inside)

/-- Neither does a token's tail, so trimming and cutting leave it whole. -/
theorem Directs.plain (directs : Directs ascending tail) :
    ∀ c ∈ tail, Text.isBlank c = false ∧ c ≠ ',' := by
  cases directs with
  | silent => exact fun _ => nofun
  | word written =>
    exact List.forall_mem_cons.2 ⟨by decide, written.forall directionWord_plain⟩

/-- A field with its direction is as tight as the field. -/
theorem isTight_field (writable : IsWritable name) (directs : Directs ascending tail) :
    IsTight (name.toList ++ tail) := by
  obtain ⟨c, rest, begins⟩ := List.exists_cons_of_ne_nil writable.tight.some
  refine ⟨by simp [begins], ?_, ?_⟩
  · have first := writable.tight.first
    rw [begins] at first ⊢
    exact first
  · intro d found
    rw [List.getLast?_append] at found
    cases last : tail.getLast? with
    | none =>
      rw [last] at found
      exact writable.tight.last d found
    | some e =>
      rw [last] at found
      cases found
      exact (directs.plain d (List.mem_of_getLast? last)).1

/-- A token is its trimmed text, cut at the first colon: the column, then the direction. -/
theorem readToken_of_trim {token cs : List Char} (trimmed : Text.trim token = cs) (some : cs ≠ []) :
    readToken token = Option.some (.str (String.ofList (Text.cutFirst ':' cs).1),
      .int (if Text.lower (String.ofList ((Text.cutFirst ':' cs).2.getD [])) = "desc" then -1 else 1)) := by
  obtain ⟨c, rest, rfl⟩ := List.exists_cons_of_ne_nil some
  rw [readToken, trimmed]

/-- A blank token is skipped. -/
theorem readToken_blank {token : List Char} (blank : IsBlankText token) : readToken token = none := by
  rw [readToken, Text.trim_blank blank]

/-- A field with its direction is read as such. -/
theorem readToken_field {before after : List Char} (writable : IsWritable name)
    (directs : Directs ascending tail) (leading : IsBlankText before)
    (trailing : IsBlankText after) :
    readToken (before ++ (name.toList ++ tail) ++ after) =
      some (.str name, .int (if ascending then 1 else -1)) := by
  have tight := isTight_field writable directs
  rw [readToken_of_trim (Text.trim_padded leading trailing tight) tight.some]
  cases directs with
  | silent =>
    rw [List.append_nil, Text.cutFirst_of_notMem writable.colon, String.ofList_toList]
    rfl
  | word written =>
    rw [Text.cutFirst_append writable.colon, String.ofList_toList, Option.getD_some, Text.lower,
      String.toList_ofList, written.lower directionWord_small]
    cases ascending <;> rfl

/-! ## Reading a text -/

variable {order : Fields Bool} {tokens : List (List Char)}

/-- No token of a listing holds a comma. -/
theorem Lists.comma_notMem (listed : Lists order tokens) : ∀ token ∈ tokens, ',' ∉ token := by
  induction listed with
  | nil => exact fun _ => nofun
  | blank blank _ ih => exact List.forall_mem_cons.2 ⟨comma_notMem_blank blank, ih⟩
  | field writable directs leading trailing _ ih =>
    refine List.forall_mem_cons.2 ⟨?_, ih⟩
    simp only [List.mem_append, not_or]
    exact ⟨⟨comma_notMem_blank leading, writable.comma, fun inside => (directs.plain _ inside).2 rfl⟩,
      comma_notMem_blank trailing⟩

/-- The tokens that are not blank are read as the order, one by one. -/
theorem Lists.read (listed : Lists order tokens) : tokens.filterMap readToken = entries order := by
  induction listed with
  | nil => rfl
  | blank blank _ ih =>
    rw [List.filterMap_cons, readToken_blank blank, ih]
  | field writable directs leading trailing _ ih =>
    rw [List.filterMap_cons, readToken_field writable directs leading trailing, ih]
    rfl

/-- With fields of its own each, an order is what its entries are written to. -/
theorem ofList_entries (own : order.keys.Nodup) : Entries.ofList (entries order) = entries order := by
  have written := Entries.putAll_ofFields []
    (order.mapValues fun ascending => .int (if ascending then 1 else -1))
  refine written.trans (congrArg Entries.ofFields (Fields.ofList_of_nodup _ ?_))
  rwa [Fields.keys_mapValues]

/-- A listing glued with commas reads as the order it lists. -/
theorem ofText_listed (own : order.keys.Nodup) (some : tokens ≠ []) (listed : Lists order tokens) :
    ofText (String.ofList (Text.glue ',' tokens)) = entries order := by
  rw [ofText, String.toList_ofList, Text.pieces_glue some listed.comma_notMem, listed.read,
    ofList_entries own]

/-- **Every text of an order is read as the order**: an order with at least one field, each named
once, comes back with its fields in their places and one for each ascending field, minus one for each
descending one. -/
theorem ofValue_listed (any : order ≠ []) (own : order.keys.Nodup) (listed : Lists order tokens) :
    ofValue (.str (String.ofList (Text.glue ',' tokens))) = entries order := by
  have some : tokens ≠ [] := by
    rintro rfl
    cases listed
    exact any rfl
  have read := ofText_listed own some listed
  -- An empty text would be read as no order at all.
  have truthy : (Value.str (String.ofList (Text.glue ',' tokens))).truthy = true := by
    refine decide_eq_true fun empty => any ?_
    rw [empty] at read
    exact List.map_eq_nil_iff.1 (List.map_eq_nil_iff.1 read.symm)
  rw [ofValue, if_pos truthy]
  exact read

/-- Names that come after sizes, which come first from large to small. -/
def bySize : Fields Bool := [("größe", false), ("full name", true), ("id", true)]

/-- The pieces of a text of it, with blanks of several kinds. -/
def bySizeTokens : List (List Char) :=
  [" \t".toList, "größe:DeSC\u00a0".toList, [], " full name".toList, "\u2003id:ASC".toList, [' ']]

theorem lists_bySize : Lists bySize bySizeTokens := by
  have writable : IsWritable "größe" ∧ IsWritable "full name" ∧ IsWritable "id" := by decide
  obtain ⟨size, name, id⟩ := writable
  have descending : InAnyCase (directionWord false) "DeSC".toList := by
    unfold InAnyCase
    decide
  have ascending : InAnyCase (directionWord true) "ASC".toList := by
    unfold InAnyCase
    decide
  have blank (ws : List Char) (all : ws.all Text.isBlank = true) : IsBlankText ws :=
    List.all_eq_true.1 all
  refine .blank (blank _ (by decide)) ?_
  refine Lists.field size (.word descending) (blank [] rfl) (blank "\u00a0".toList (by decide)) ?_
  refine .blank (blank _ rfl) ?_
  refine Lists.field name .silent (blank [' '] (by decide)) (blank [] rfl) ?_
  refine Lists.field id (.word ascending) (blank "\u2003".toList (by decide)) (blank [] rfl) ?_
  exact .blank (blank _ (by decide)) .nil

theorem ofValue_listed_bySize :
    bySize ≠ [] ∧ bySize.keys.Nodup ∧ Lists bySize bySizeTokens ∧
      String.ofList (Text.glue ',' bySizeTokens) = " \t,größe:DeSC\u00a0,, full name,\u2003id:ASC, " ∧
      ofValue (.str " \t,größe:DeSC\u00a0,, full name,\u2003id:ASC, ") =
        [(.str "größe", .int (-1)), (.str "full name", .int 1), (.str "id", .int 1)] := by
  have any : bySize ≠ [] := List.cons_ne_nil _ _
  have own : bySize.keys.Nodup := by decide
  have text : String.ofList (Text.glue ',' bySizeTokens) =
      " \t,größe:DeSC\u00a0,, full name,\u2003id:ASC, " := by decide
  have read := ofValue_listed any own lists_bySize
  rw [text] at read
  exact ⟨any, own, lists_bySize, text, read⟩

end SortOrder

end ShapeContract
