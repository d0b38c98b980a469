import ShapeContract.Proofs.Query.Conjunction

/-!
# Conditions with several operators

A condition asks its operators one kind after the other, and the first kind that it has decides: the
bounds of a range together, the other operators alone. So a condition says what all of its operators
say exactly if those that it does not ask say nothing more: `Filter.conditionHolds_each_iff`.
-/

set_option autoImplicit false

namespace ShapeContract

open Criteria (operator)

namespace Filter

/-- The operators, each with its turn; the bounds of a range have theirs together. -/
def turns : Fields Nat := [("$exists", 0), ("$gte", 1), ("$lte", 1), ("$in", 2), ("$regex", 3)]

def turn (name : String) : Nat := (turns.get? name).getD turns.length

/-- A condition of operators, in any order, with a list for membership. -/
structure Operative (cond : Fields Value) : Prop where
  any : cond ≠ []
  known : ∀ name ∈ cond.keys, name ∈ turns.keys
  listed : ∀ o, cond.get? "$in" = some o → ∃ vs, o = .list vs

/-- An operator of a condition, whose turn is no later than that of any other. -/
def Leads (cond : Fields Value) (name : String) : Prop :=
  ∀ other ∈ cond.keys, turn name ≤ turn other

/-- Each operator of a condition says something of a value by itself. -/
def EachAnswers [CharacterNames] (cond : Fields Value) (v : Option Value) : Prop :=
  ∀ name o, cond.get? name = some o → ∃ t, conditionHolds (operator name o) v = .ok t

/-- What a condition has under a name holds by itself. -/
def HoldsAlone [CharacterNames] (cond : Fields Value) (v : Option Value) (name : String) : Prop :=
  ∀ o, cond.get? name = some o → conditionHolds (operator name o) v = .ok true

variable {cond : Fields Value} {v : Option Value} {low high : Option Value} {o : Value}

/-! ## The bounds of a range -/

/-- A range holds as its bounds do, each by itself. -/
theorem rangeHolds_both {s t : Bool} (above : rangeHolds low none v = .ok s)
    (below : rangeHolds none high v = .ok t) : rangeHolds low high v = .ok (s && t) := by
  unfold rangeHolds at *
  cases given : present? v with
  | none =>
    rw [given] at above
    cases above
    rfl
  | some w =>
    simp only [given] at *
    have free : boundHolds (fun b v => Value.le? b v) none w = .ok true := rfl
    have free' : boundHolds (fun b v => Value.le? v b) none w = .ok true := rfl
    rw [free] at below
    rw [free'] at above
    cases lowest : boundHolds (fun b v => Value.le? b v) low w with
    | error e => rw [lowest] at above; cases above
    | ok a =>
      rw [lowest] at above
      have below' : boundHolds (fun b v => Value.le? v b) high w = .ok t := below
      cases a <;> cases above
      · rfl
      · simpa [bind, Except.bind] using below'

/-! ## What decides -/

section Deciding

theorem operatorsHold?_ofFields [CharacterNames] (cond : Fields Value) (v : Option Value) :
    conditionHolds (.object cond) v =
      ((operatorsHold? (Entries.ofFields cond) v).getD (.ok (equalHolds (.object cond) v))) := by
  have entries : (Value.object cond).entries? = some (Entries.ofFields cond) := rfl
  rw [conditionHolds, entries, Option.bind_some]
  cases operatorsHold? (Entries.ofFields cond) v <;> rfl

theorem decided_by_exists [CharacterNames] (found : cond.get? "$exists" = some o) :
    conditionHolds (.object cond) v = conditionHolds (operator "$exists" o) v := by
  simp only [operatorsHold?_ofFields, operatorsHold?, Entries.get?_ofFields, found]
  rfl

variable (noExists : cond.get? "$exists" = none)

include noExists

theorem decided_by_range [CharacterNames]
    (bounded : ((cond.get? "$gte").isSome || (cond.get? "$lte").isSome) = true) :
    conditionHolds (.object cond) v = rangeHolds (cond.get? "$gte") (cond.get? "$lte") v := by
  simp only [operatorsHold?_ofFields, operatorsHold?, Entries.get?_ofFields, noExists, bounded]
  rfl

variable (noLow : cond.get? "$gte" = none) (noHigh : cond.get? "$lte" = none)

include noLow noHigh

theorem decided_by_in [CharacterNames] {vs : List Value}
    (found : cond.get? "$in" = some (.list vs)) :
    conditionHolds (.object cond) v = conditionHolds (operator "$in" (.list vs)) v := by
  simp only [operatorsHold?_ofFields, operatorsHold?, Entries.get?_ofFields, noExists, noLow,
    noHigh, found]
  rfl

theorem decided_by_regex [CharacterNames] (noIn : cond.get? "$in" = none)
    (found : cond.get? "$regex" = some o) :
    conditionHolds (.object cond) v = conditionHolds (operator "$regex" o) v := by
  simp only [operatorsHold?_ofFields, operatorsHold?, Entries.get?_ofFields, noExists, noLow,
    noHigh, noIn, found]
  rfl

end Deciding

/-! ## Turns -/

theorem turn_of_mem {e : String × Nat} (known : e ∈ turns) : turn e.1 = e.2 := by
  simp only [turns, List.mem_cons, List.not_mem_nil, or_false] at known
  rcases known with rfl | rfl | rfl | rfl | rfl <;> rfl

/-- The operators that come first are those of the first turn that the condition has. -/
theorem leading_iff [CharacterNames] (operative : Operative cond) {k : Nat}
    (none : ∀ e ∈ turns, e.2 < k → cond.get? e.1 = none)
    (some : ∃ e ∈ turns, e.2 = k ∧ ∃ o, cond.get? e.1 = some o) :
    (∀ name, Leads cond name → HoldsAlone cond v name) ↔
      ∀ e ∈ turns, e.2 = k → HoldsAlone cond v e.1 := by
  have earliest : ∀ name ∈ cond.keys, k ≤ turn name := by
    intro name inside
    obtain ⟨e, known, rfl⟩ := List.mem_map.1 (operative.known name inside)
    obtain ⟨o, found⟩ := Fields.exists_get?_of_mem_keys inside
    rw [turn_of_mem known]
    refine Nat.le_of_not_lt fun earlier => ?_
    rw [none e known earlier] at found
    cases found
  constructor
  · intro leading e known first
    refine leading e.1 fun other inside => ?_
    rw [turn_of_mem known, first]
    exact earliest other inside
  · intro first name leads o found
    have inside : name ∈ cond.keys := List.mem_map_of_mem (Fields.mem_of_get? found)
    obtain ⟨e, known, rfl⟩ := List.mem_map.1 (operative.known name inside)
    obtain ⟨d, there, atTurn, o', found'⟩ := some
    have least := leads d.1 (List.mem_map_of_mem (Fields.mem_of_get? found'))
    rw [turn_of_mem known, turn_of_mem there, atTurn] at least
    have most := earliest e.1 inside
    rw [turn_of_mem known] at most
    exact first e known (Nat.le_antisymm least most) o found

theorem holdsAlone_iff [CharacterNames] {name : String} {t : Bool} (found : cond.get? name = some o)
    (answer : conditionHolds (operator name o) v = .ok t) : HoldsAlone cond v name ↔ t = true := by
  constructor
  · intro alone
    exact Except.ok.inj (answer.symm.trans (alone o found))
  · rintro rfl o' found'
    cases found.symm.trans found'
    exact answer

theorem holdsAlone_of_none [CharacterNames] {name : String} (missing : cond.get? name = none) :
    HoldsAlone cond v name := by
  intro o found
  cases missing.symm.trans found

/-- The bounds of a range answer together what each of them answers by itself. -/
theorem conditionHolds_bounds [CharacterNames] (noExists : cond.get? "$exists" = none)
    (bounded : ((cond.get? "$gte").isSome || (cond.get? "$lte").isSome) = true)
    (answers : EachAnswers cond v) :
    ∃ t, conditionHolds (.object cond) v = .ok t ∧
      (t = true ↔ HoldsAlone cond v "$gte" ∧ HoldsAlone cond v "$lte") := by
  rw [decided_by_range noExists bounded]
  cases low : cond.get? "$gte" with
  | some b =>
    obtain ⟨s, above⟩ := answers _ _ low
    cases high : cond.get? "$lte" with
    | some c =>
      obtain ⟨t, below⟩ := answers _ _ high
      refine ⟨s && t, rangeHolds_both above below, ?_⟩
      rw [Bool.and_eq_true, holdsAlone_iff low above, holdsAlone_iff high below]
    | none =>
      refine ⟨s, above, ?_⟩
      rw [holdsAlone_iff low above, and_iff_left (holdsAlone_of_none high)]
  | none =>
    cases high : cond.get? "$lte" with
    | some c =>
      obtain ⟨t, below⟩ := answers _ _ high
      refine ⟨t, below, ?_⟩
      rw [holdsAlone_iff high below, and_iff_right (holdsAlone_of_none low)]
    | none =>
      rw [low, high] at bounded
      cases bounded

/-- **The operators whose turn comes first decide.** -/
theorem conditionHolds_leading [CharacterNames] (operative : Operative cond)
    (answers : EachAnswers cond v) :
    ∃ t, conditionHolds (.object cond) v = .ok t ∧
      (t = true ↔ ∀ name, Leads cond name → HoldsAlone cond v name) := by
  cases exists? : cond.get? "$exists" with
  | some o =>
    obtain ⟨t, answer⟩ := answers _ _ exists?
    refine ⟨t, (decided_by_exists exists?).trans answer, ?_⟩
    rw [leading_iff operative (k := 0) (by simp) (by simp [turns, exists?])]
    simp [turns, holdsAlone_iff exists? answer]
  | none =>
    by_cases bounded : ((cond.get? "$gte").isSome || (cond.get? "$lte").isSome) = true
    · obtain ⟨t, answer, both⟩ := conditionHolds_bounds exists? bounded answers
      refine ⟨t, answer, both.trans ?_⟩
      rw [Bool.or_eq_true, Option.isSome_iff_exists, Option.isSome_iff_exists] at bounded
      rw [leading_iff operative (k := 1) (by simp [turns, exists?])
        (by simpa [turns] using bounded)]
      simp [turns]
    · simp only [Bool.or_eq_true, not_or, Bool.not_eq_true, Option.isSome_eq_false_iff,
        Option.isNone_iff_eq_none] at bounded
      obtain ⟨low, high⟩ := bounded
      cases among : cond.get? "$in" with
      | some o =>
        obtain ⟨vs, rfl⟩ := operative.listed o among
        obtain ⟨t, answer⟩ := answers _ _ among
        refine ⟨t, (decided_by_in exists? low high among).trans answer, ?_⟩
        rw [leading_iff operative (k := 2) (by simp [turns, exists?, low, high])
          (by simp [turns, among])]
        simp [turns, holdsAlone_iff among answer]
      | none =>
        obtain ⟨o, like⟩ : ∃ o, cond.get? "$regex" = some o := by
          have some : cond.keys ≠ [] := mt List.map_eq_nil_iff.1 operative.any
          obtain ⟨name, inside⟩ := List.exists_mem_of_ne_nil cond.keys some
          obtain ⟨o, found⟩ := Fields.exists_get?_of_mem_keys inside
          have known := operative.known name inside
          simp only [turns, Fields.keys, List.map_cons, List.map_nil, List.mem_cons,
            List.not_mem_nil, or_false] at known
          rcases known with rfl | rfl | rfl | rfl | rfl
          all_goals simp_all
        obtain ⟨t, answer⟩ := answers _ _ like
        refine ⟨t, (decided_by_regex exists? low high among like).trans answer, ?_⟩
        rw [leading_iff operative (k := 3) (by simp [turns, exists?, low, high, among])
          (by simp [turns, like])]
        simp [turns, holdsAlone_iff like answer]

/-! ## Ranges of fields that must be there -/

/-- A document with one condition lets through the items of which the condition holds. -/
theorem apply_single [CharacterNames] {name : String} {c : Value} {items : List Value}
    {g : Value → Bool}
    (single : name ≠ "$or") (records : ∀ item ∈ items, item.isMapping = true)
    (each : ∀ item ∈ items, conditionHolds c (item.field? name) = .ok (g item)) :
    Filter.apply (.object [(name, c)]) (.list items) = .ok (items.filter g) := by
  have unsearched : Fields.get? [(name, c)] "$or" = none := if_neg single
  refine filterM_ok fun item inside => ?_
  rw [holds_object (records item inside), unsearched]
  exact (allM_singleton _ _).trans ((verdict_single single).trans (each item inside))

end Filter

namespace Criteria

/-- A field that is asked to be within bounds and to be there. -/
def rangedPresence (name : String) (bounds : Fields Value) : Criteria where
  range := .object [(name, .object bounds)]
  present := .list [.str name]

/-- The bounds of a range as operators. -/
def boundOperators (bounds : Fields Value) : Fields Value :=
  bound (Entries.ofFields bounds) "gte" ++ bound (Entries.ofFields bounds) "lte"

theorem notePresence_joins {wanted : Bool} {cs cond : Fields Value} {name : String}
    (known : cs.get? name = some (.object cond)) :
    notePresence wanted (Entries.ofFields cs) (.str name) =
      .ok (Entries.ofFields (cs.put name (.object (cond.put "$exists" (.bool wanted))))) := by
  have found : (Entries.ofFields cs).get? (.str name) = some (.object cond) :=
    (Entries.get?_ofFields cs name).trans known
  have hashed : key (.str name) = .ok (.str name) := rfl
  have joined : (Entries.put (Entries.ofFields cond) (.str "$exists") (.bool wanted)).toValue =
      .object (cond.put "$exists" (.bool wanted)) := by
    rw [Entries.put_ofFields, Entries.toValue_ofFields]
  rw [notePresence, hashed, ← Entries.put_ofFields, ← joined]
  simp only [bind, Except.bind, found]
  cases cond <;> rfl

theorem filter_rangedPresence [CharacterNames] (name : String) (bounds : Fields Value) :
    (rangedPresence name bounds).filter = .ok (Entries.ofFields
      [(name, .object ((boundOperators bounds).put "$exists" (.bool true)))]) := by
  have ranged : addRange (.object [(name, .object bounds)]) [] =
      .ok (Entries.ofFields [(name, .object (boundOperators bounds))]) := rfl
  have present : addPresence true (.list [.str name])
      (Entries.ofFields [(name, .object (boundOperators bounds))]) = .ok (Entries.ofFields
        [(name, .object ((boundOperators bounds).put "$exists" (.bool true)))]) := by
    have joined := @notePresence_joins true [(name, .object (boundOperators bounds))]
      (boundOperators bounds) name (if_pos rfl)
    rw [Fields.put, if_pos rfl] at joined
    change (notePresence true _ (.str name) >>= fun f => pure f) = _
    rw [joined]
    rfl
  change (addRange (.object [(name, .object bounds)]) [] >>= fun f =>
    addSearch .null f >>= fun f => addPresence true (.list [.str name]) f >>= fun f =>
      addPresence false .null f >>= addRegex .null) = _
  rw [ranged]
  change (addPresence true (.list [.str name])
    (Entries.ofFields [(name, .object (boundOperators bounds))]) >>= fun f =>
      addPresence false .null f >>= addRegex .null) = _
  rw [present]
  rfl

end Criteria

namespace Filter

variable {cond : Fields Value} {v : Option Value}

/-- **A condition with several operators** answers if each of its operators does by itself, and what
it says is what the operators say whose turn comes first. So it is their conjunction exactly if with
those all others hold. In particular a range does not count for a field that must be there, so the
filter of both lets through every item that has the field. -/
theorem conditionHolds_each_iff [CharacterNames] (operative : Operative cond)
    (answers : EachAnswers cond v) :
    (∃ t, conditionHolds (.object cond) v = .ok t ∧
      (t = true ↔ ∀ name, Leads cond name → HoldsAlone cond v name) ∧
      ((t = true ↔ ∀ name, HoldsAlone cond v name) ↔
        ((∀ name, Leads cond name → HoldsAlone cond v name) → ∀ name, HoldsAlone cond v name))) ∧
    ∀ (field : String) (bounds : Fields Value) (items : List Value), field ≠ "$or" →
      (∀ item ∈ items, item.isMapping = true) →
      ∃ document, (Criteria.rangedPresence field bounds).filter = .ok document ∧
        Filter.apply document.toValue (.list items) =
          .ok (items.filter fun item => Criterion.present.holds (item.field? field)) := by
  constructor
  · obtain ⟨t, answer, leading⟩ := conditionHolds_leading operative answers
    refine ⟨t, answer, leading, ?_⟩
    rw [leading]
    exact ⟨fun each => each.1, fun others => ⟨others, fun all name _ => all name⟩⟩
  · intro field bounds items single records
    refine ⟨_, Criteria.filter_rangedPresence field bounds, ?_⟩
    rw [Entries.toValue_ofFields]
    refine apply_single single records fun item _ => ?_
    exact decided_by_exists (Fields.get?_put_self _ "$exists" _)

/-- From eighteen to sixty-five, or of some ages. -/
def ofAge : Fields Value :=
  [("$lte", .int 65), ("$in", .list [.int 40, .int 70]), ("$gte", .int 18)]

theorem operative_ofAge : Operative ofAge where
  any := by decide
  known := by decide
  listed := by
    rintro _ ⟨⟩
    exact ⟨_, rfl⟩

theorem ofAge_answers [CharacterNames] : EachAnswers ofAge (some (.int 30)) := by
  intro name o found
  have inside := Fields.mem_of_get? found
  simp only [ofAge, List.mem_cons, Prod.mk.injEq, List.not_mem_nil, or_false] at inside
  rcases inside with ⟨rfl, rfl⟩ | ⟨rfl, rfl⟩ | ⟨rfl, rfl⟩
  · exact ⟨true, rfl⟩
  · exact ⟨false, rfl⟩
  · exact ⟨true, rfl⟩

/-- Of age, which has to be known. -/
def grownUp : Fields Value := [("$gte", .int 18), ("$exists", .bool true)]

def minor : Value := .object [("age", .int 5)]

section

attribute [local instance] CharacterNames.common

/-- The bounds let an age through that is not among the others, and the presence lets a minor
through. -/
theorem conditionHolds_each_ofAge :
    Operative ofAge ∧ EachAnswers ofAge (some (.int 30)) ∧
    ((∀ name, Leads ofAge name → HoldsAlone ofAge (some (.int 30)) name) ∧
      ¬ HoldsAlone ofAge (some (.int 30)) "$in") ∧
    ∃ document, (Criteria.rangedPresence "age" [("gte", .int 18)]).filter = .ok document ∧
      Filter.apply document.toValue (.list [.object [], minor]) = .ok [minor] := by
  obtain ⟨⟨t, answer, leading, -⟩, present⟩ :=
    conditionHolds_each_iff operative_ofAge ofAge_answers
  refine ⟨operative_ofAge, ofAge_answers, ⟨leading.1 ?_, fun among => ?_⟩,
    present "age" [("gte", .int 18)] [.object [], minor] (by decide) (by decide)⟩
  · exact Except.ok.inj (answer.symm.trans rfl)
  · cases among _ rfl

/-- A minor whose age is known passes for grown up: the bound does not count beside the presence. -/
theorem not_conditionHolds_each_minor :
    Operative grownUp ∧
    conditionHolds (.object grownUp) (minor.field? "age") = .ok true ∧
    HoldsAlone grownUp (minor.field? "age") "$exists" ∧
    conditionHolds (operator "$gte" (.int 18)) (minor.field? "age") = .ok false ∧
    (Criteria.rangedPresence "age" [("gte", .int 18)]).filter =
      .ok (Entries.ofFields [("age", .object grownUp)]) ∧
    Filter.apply (.object [("age", .object grownUp)]) (.list [minor]) = .ok [minor] := by
  refine ⟨⟨by decide, by decide, nofun⟩, rfl, ?_, rfl, rfl, rfl⟩
  rintro _ ⟨⟩
  rfl

end

end Filter

end ShapeContract
