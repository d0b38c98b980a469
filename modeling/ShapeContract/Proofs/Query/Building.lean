import ShapeContract.Proofs.Query.Matching

/-!
# The filter document of a search

Each part of the criteria writes conditions to one document, one after the other. As no field is
named by two parts, no condition is lost: under its name stands what answers as it was asked, and
under `$or` a document for each field in which a text is looked for.
-/

set_option autoImplicit false

namespace ShapeContract.Criteria

/-! ## Operands -/

/-- An operand that compiles reaches the filter as a compiled pattern. -/
theorem compiled_of_compiles [CharacterNames] {v : Value} {f : RegexFlags} {p : Pattern}
    (compiles : Compiles v f p) :
    ∃ source g, compiled v f = .ok (.regex source g) ∧ Pattern.compile g source = .ok p := by
  cases compiles with
  | @text v source f p text made =>
    refine ⟨p.source, p.flags, ?_, Pattern.compile_again made⟩
    unfold compiled
    split
    · cases text
    · rw [text]
      dsimp only
      rw [made]
      rfl
  | compiled made => exact ⟨_, _, rfl, made⟩

/-- Letters are read one by one, and repeated ones count once. -/
theorem foldlM_letters {cs : List Char} (known : ∀ c ∈ cs, c ∈ ['i', 'm', 's', 'x'])
    (f : RegexFlags) :
    (cs.map fun c => Value.str (String.singleton c)).foldlM
        (fun f letter => do return joinFlags f (← flagOf letter)) f =
      .ok (joinFlags f ⟨cs.contains 'i', cs.contains 'm', cs.contains 's', cs.contains 'x'⟩) := by
  induction cs generalizing f with
  | nil => simp [joinFlags, pure, Except.pure]
  | cons c rest ih =>
    obtain ⟨here, later⟩ := List.forall_mem_cons.1 known
    rw [List.map_cons, List.foldlM_cons]
    simp only [List.mem_cons, List.not_mem_nil, or_false] at here
    rcases here with rfl | rfl | rfl | rfl <;> refine (ih later _).trans ?_ <;>
      simp [joinFlags]

/-- Options given by letters are the flags those letters name. -/
theorem flagsOf_of_lettered {options : Option Value} {f : RegexFlags} (lettered : Lettered options f) :
    flagsOf options = .ok f := by
  cases lettered with
  | missing => rfl
  | @nothing v falsy =>
    have none : partItems v = .ok [] := if_neg (by simp [falsy])
    rw [flagsOf, none]
    rfl
  | letters s known =>
    have items : partItems (.str s) = .ok (s.toList.map fun c => .str (String.singleton c)) := by
      by_cases empty : s = ""
      · subst empty
        rfl
      · exact if_pos (by simpa [Value.truthy] using empty)
    rw [flagsOf, items]
    refine (foldlM_letters known {}).trans ?_
    simp [joinFlags, RegexFlags.ofLetters]

/-! ## Parts -/

open ShapeContract.Filter (Answers)

variable {items : List Value} {part : Value} {fs : Fields Value} {names : List String}

/-- A falsy list is empty, so skipping it loses nothing. -/
theorem items_of_falsy {v : Value} {vs : List Value} (falsy : v.truthy = false)
    (listed : v.items? = some vs) : vs = [] := by
  cases v with
  | member owner label v textual =>
    cases v <;> cases textual <;> simp_all [Value.truthy, Value.items?]
  | _ => simp_all [Value.truthy, Value.items?]

/-- A mapping, or nothing, is read as its entries … -/
theorem partEntries_of_entered (entered : Entered part fs) :
    partEntries part = .ok (Entries.ofFields fs) := by
  cases entered with
  | nothing falsy => exact if_neg (by simp [falsy])
  | mapping fs => cases fs <;> rfl

/-- … and a list, or nothing, as its names. -/
theorem partItems_of_named (named : Named part names) : partItems part = .ok (names.map .str) := by
  cases named with
  | nothing falsy => exact if_neg (by simp [falsy])
  | names listed =>
    by_cases truthy : part.truthy = true
    · rw [partItems, if_pos truthy, Value.items, listed]
    · rw [Bool.not_eq_true] at truthy
      rw [partItems, truthy, items_of_falsy truthy listed]
      rfl

/-- A part is read field by field, and each of its conditions is written under its field. -/
theorem foldlM_entered [CharacterNames] {α : Type} (R : Value → α → Prop) {asked : α → Criterion}
    {step : Entries → Value × Value → Except Failure Entries} {ds : Fields α}
    (reads : List.Forall₂ (fun e d => e.1 = d.1 ∧ R e.2 d.2) fs ds)
    (each : ∀ name v a, (name, a) ∈ ds → R v a → ∃ cond,
      (∀ f : Entries, step f (.str name, v) = .ok (f.put (.str name) cond)) ∧
        Answers items (name, cond) (name, asked a)) :
    ∃ conds : Fields Value, (∀ cs, (Entries.ofFields fs).foldlM step (Entries.ofFields cs) =
        .ok (Entries.ofFields (cs.putAll conds))) ∧
      List.Forall₂ (Answers items) conds (ds.mapValues asked) := by
  induction reads with
  | nil => exact ⟨[], fun _ => rfl, .nil⟩
  | @cons e d fs ds here _ ih =>
    obtain ⟨name, v⟩ := e
    obtain ⟨name', a⟩ := d
    obtain ⟨rfl, read⟩ := here
    obtain ⟨cond, written, answers⟩ := each name v a List.mem_cons_self read
    obtain ⟨conds, run, later⟩ := ih fun other w b inside => each other w b (List.mem_cons_of_mem _ inside)
    refine ⟨(name, cond) :: conds, fun cs => ?_, .cons answers later⟩
    rw [Entries.ofFields_cons, List.foldlM_cons, written, Entries.put_ofFields]
    exact run (cs.put name cond)

/-- Wanted values are written over what the filter holds. -/
theorem addEquals_entered (entered : Entered part fs) (cs : Fields Value) :
    addEquals part (Entries.ofFields cs) = .ok (Entries.ofFields (cs.putAll fs)) := by
  cases entered with
  | nothing falsy =>
    rw [addEquals, falsy]
    rfl
  | mapping fs =>
    cases fs with
    | nil => rfl
    | cons e rest =>
      change Except.ok ((Entries.ofFields cs).putAll (Entries.ofFields (e :: rest))) = _
      rw [Entries.putAll_ofFields]

/-- Wanted lists become `$in` conditions. -/
theorem addAmong_entered [CharacterNames] (items : List Value) {ds : Fields (List Value)}
    (entered : EachEntered (fun v vs => v.items? = some vs) part ds) :
    ∃ conds : Fields Value, (∀ cs, addAmong part (Entries.ofFields cs) =
        .ok (Entries.ofFields (cs.putAll conds))) ∧
      List.Forall₂ (Answers items) conds (ds.mapValues .among) := by
  obtain ⟨fs, entered, reads⟩ := entered
  simp only [addAmong, partEntries_of_entered entered]
  refine foldlM_entered (fun v vs => v.items? = some vs) reads fun name v vs _ read =>
    ⟨operator "$in" (.list vs), fun f => ?_, rfl, ?_⟩
  · rw [Value.items, read]
    rfl
  · exact fun item _ => .of_ok not_false (Filter.conditionHolds_among vs _)

/-- Bounds become `$gte` and `$lte` conditions, each only where it is given. -/
theorem addRange_entered [CharacterNames] {ds : Fields (Option Value × Option Value)}
    (entered : EachEntered Bounded part ds)
    (ranged : Sought.Comparable { within := ds } items) :
    ∃ conds : Fields Value, (∀ cs, addRange part (Entries.ofFields cs) =
        .ok (Entries.ofFields (cs.putAll conds))) ∧
      List.Forall₂ (Answers items) conds (ds.mapValues fun b => .within b.1 b.2) := by
  obtain ⟨fs, entered, reads⟩ := entered
  simp only [addRange, partEntries_of_entered entered]
  refine foldlM_entered Bounded reads fun name v b inside read => ?_
  cases read with
  | bounds fs =>
    obtain ⟨bounded, comparable⟩ := ranged _ inside
    refine ⟨_, fun f => rfl, rfl, fun item among => ?_⟩
    refine .of_ok not_false (Filter.conditionHolds_within ?_ ?_ bounded (comparable item among))
    · rw [Entries.get?_ofFields]
    · rw [Entries.get?_ofFields]

/-- Patterns are compiled once, when the filter is built. -/
theorem addRegex_entered [CharacterNames] (items : List Value) {ds : Fields Pattern}
    (entered : EachEntered Matched part ds) :
    ∃ conds : Fields Value, (∀ cs, addRegex part (Entries.ofFields cs) =
        .ok (Entries.ofFields (cs.putAll conds))) ∧
      List.Forall₂ (Answers items) conds (ds.mapValues .like) := by
  obtain ⟨fs, entered, reads⟩ := entered
  simp only [addRegex, partEntries_of_entered entered]
  refine foldlM_entered Matched reads fun name v p _ read => ?_
  cases read with
  | @pattern spec source f p given options made =>
    obtain ⟨text, g, compiled, again⟩ := compiled_of_compiles made
    refine ⟨operator "$regex" (.regex text g), fun f' => ?_, rfl,
      fun item _ => Filter.conditionHolds_regex again _⟩
    have entries : (Value.object spec).entries? = some (Entries.ofFields spec) := rfl
    simp only [entries, Entries.get?_ofFields, given, flagsOf_of_lettered options, compiled, bind,
      Except.bind, pure, Except.pure]

/-! ## Presence and absence -/

def existence (wanted : Bool) : Value := operator "$exists" (.bool wanted)

def existences (wanted : Bool) (names : List String) : Fields Value :=
  names.map fun name => (name, existence wanted)

/-- Presence is noted by itself where the field has no other condition. -/
theorem notePresence_free {wanted : Bool} {cs : Fields Value} {name : String}
    (free : cs.get? name = none ∨ cs.get? name = some (existence wanted)) :
    notePresence wanted (Entries.ofFields cs) (.str name) =
      .ok (Entries.ofFields (cs.put name (existence wanted))) := by
  have known : (Entries.ofFields cs).get? (.str name) = cs.get? name := Entries.get?_ofFields cs name
  have hashed : key (.str name) = .ok (.str name) := rfl
  rw [notePresence, hashed, ← Entries.put_ofFields]
  simp only [bind, Except.bind, known]
  rcases free with missing | there
  · rw [missing]
    rfl
  · rw [there]
    rfl

/-- A list may name a field twice; otherwise no field of it has a condition yet. -/
theorem addPresence_named {wanted : Bool} (named : Named part names) {cs : Fields Value}
    (free : ∀ name ∈ names, cs.get? name = none ∨ cs.get? name = some (existence wanted)) :
    addPresence wanted part (Entries.ofFields cs) =
      .ok (Entries.ofFields (cs.putAll (existences wanted names))) := by
  rw [addPresence, partItems_of_named named]
  change List.foldlM _ _ (names.map Value.str) = _
  clear named
  induction names generalizing cs with
  | nil => rfl
  | cons name rest ih =>
    obtain ⟨here, later⟩ := List.forall_mem_cons.1 free
    rw [List.map_cons, List.foldlM_cons, notePresence_free here]
    refine ih fun other inside => ?_
    by_cases same : other = name
    · exact .inr (same ▸ Fields.get?_put_self cs name _)
    · rw [Fields.get?_put_of_ne cs _ same]
      exact later other inside

/-! ## Searches -/

/-- What a search writes: under `$or` a document for each field. -/
inductive Finds [CharacterNames] : Fields Value → Option (Pattern × List String) → Prop
  | nothing : Finds [] none
  | branches {source : String} {g : RegexFlags} {p : Pattern} {names : List String}
    (any : names ≠ []) (made : Pattern.compile g source = .ok p) :
    Finds [("$or", .list (names.map fun name => .object [(name, operator "$regex" (.regex source g))]))]
      (some (p, names))

/-- Each field of a search becomes a branch with one condition. -/
theorem mapM_branches (cond : Value) (names : List String) :
    (names.map Value.str).mapM (fun field => do
        pure (Entries.toValue [(← key field, cond)])) =
      .ok (names.map fun name => Value.object [(name, cond)]) := by
  induction names with
  | nil => rfl
  | cons name rest ih =>
    rw [List.map_cons, List.mapM_cons, ih]
    rfl

theorem truthy_getD (v : Option Value) : (v.getD .null).truthy = v.any Value.truthy := by
  cases v <;> rfl

/-- A search that is a mapping with entries. -/
theorem addSearch_object [CharacterNames] (e : String × Value) (rest : Fields Value) (f : Entries) :
    addSearch (.object (e :: rest)) f =
      if (Fields.get? (e :: rest) "q").any Value.truthy &&
          (Fields.get? (e :: rest) "fields").any Value.truthy then do
        let pattern ← compiled ((Fields.get? (e :: rest) "q").getD .null)
          { ignoreCase := !isExact (Fields.get? (e :: rest) "case_insensitive") }
        let branches ← (← Value.items ((Fields.get? (e :: rest) "fields").getD .null)).mapM
          fun field => do pure (Entries.toValue [(← key field, operator "$regex" pattern)])
        pure (f.put Filter.anyName (.list branches))
      else .ok f := by
  have entries : (Value.object (e :: rest)).entries = .ok (Entries.ofFields (e :: rest)) := rfl
  have truthy : (Value.object (e :: rest)).truthy = true := rfl
  rw [addSearch, truthy, entries]
  simp only [bind, Except.bind, Entries.get?_ofFields, truthy_getD]
  cases (Fields.get? (e :: rest) "q").any Value.truthy <;>
    cases (Fields.get? (e :: rest) "fields").any Value.truthy <;> rfl

/-- A search with a text adds its branches, and one without adds nothing. -/
theorem addSearch_searched [CharacterNames] {search : Option (Pattern × List String)}
    (searched : Searched part search) :
    ∃ extra : Fields Value, (∀ cs, addSearch part (Entries.ofFields cs) =
      .ok (Entries.ofFields (cs.putAll extra))) ∧ Finds extra search := by
  cases searched with
  | nothing falsy =>
    refine ⟨[], fun cs => ?_, .nothing⟩
    rw [addSearch, falsy]
    rfl
  | idle fs idle =>
    refine ⟨[], fun cs => ?_, .nothing⟩
    cases fs with
    | nil => rfl
    | cons e rest => exact (addSearch_object e rest _).trans (if_neg (by simp [idle]))
  | @fields fs text fields p names q truthy given any listed made =>
    obtain ⟨source, g, compiled, again⟩ := compiled_of_compiles made
    refine ⟨_, fun cs => ?_, .branches any again⟩
    have some : fields.truthy = true := by
      refine Bool.of_not_eq_false fun falsy => any ?_
      exact List.map_eq_nil_iff.1 (items_of_falsy falsy listed)
    cases fs with
    | nil => cases q
    | cons e rest =>
      have branches := mapM_branches (operator "$regex" (.regex source g)) names
      rw [addSearch_object, q, given, Option.any_some, Option.any_some, truthy, some]
      simp only [Bool.and_self, if_true, Option.getD_some, compiled, bind, Except.bind, Value.items,
        listed]
      simp only [bind, Except.bind] at branches
      rw [branches]
      exact congrArg Except.ok (Entries.put_ofFields cs "$or" _)

end ShapeContract.Criteria
