import ShapeContract.Proofs.Fields
import ShapeContract.Proofs.Lists
import ShapeContract.Proofs.Pattern.Again
import ShapeContract.Proofs.Query.Sought

/-!
# Conditions and what they mean

The conditions that a filter document is made of, one for each kind of criterion: each holds of the
value of a field exactly if the criterion does, and fails exactly if a text that it asks for cannot
be had.
-/

set_option autoImplicit false

namespace ShapeContract

/-! ## Mappings with texts as keys -/

namespace Entries

theorem ofFields_cons (e : String × Value) (rest : Fields Value) :
    ofFields (e :: rest) = (.str e.1, e.2) :: ofFields rest := rfl

theorem get?_ofFields (ds : Fields Value) (name : String) :
    (ofFields ds).get? (.str name) = ds.get? name := by
  induction ds with
  | nil => rfl
  | cons e rest ih =>
    rw [ofFields_cons, get?, Value.equal_str, ih, Fields.get?_cons]
    exact if_congr decide_eq_true_iff rfl rfl

theorem put_ofFields (ds : Fields Value) (name : String) (v : Value) :
    (ofFields ds).put (.str name) v = ofFields (ds.put name v) := by
  induction ds with
  | nil => rfl
  | cons e rest ih =>
    rw [ofFields_cons, put, Value.equal_str, ih, Fields.put]
    by_cases here : e.1 = name
    · rw [if_pos here, if_pos (decide_eq_true here)]
      rfl
    · rw [if_neg here, if_neg (by simpa using here)]
      rfl

theorem putAll_ofFields (ds more : Fields Value) :
    (ofFields ds).putAll (ofFields more) = ofFields (ds.putAll more) := by
  induction more generalizing ds with
  | nil => rfl
  | cons e rest ih =>
    change ((ofFields ds).put (.str e.1) e.2).putAll (ofFields rest) = _
    rw [put_ofFields, ih]
    rfl

theorem mapM_ofFields (ds : Fields Value) :
    (ofFields ds).mapM (fun e => e.1.text?) = some ds.keys := by
  induction ds with
  | nil => rfl
  | cons e rest ih =>
    rw [ofFields_cons, List.mapM_cons, ih]
    rfl

theorem toValue_ofFields (ds : Fields Value) : (ofFields ds).toValue = .object ds := by
  have values : (ofFields ds).map Prod.snd = ds.map Prod.snd := List.map_map
  have paired : (ds.map Prod.fst).zip (ds.map Prod.snd) = ds :=
    List.zip_map'.trans (List.map_id ds)
  rw [toValue, mapM_ofFields, values, Fields.keys]
  exact congrArg Value.object paired

end Entries

namespace Filter

/-! ## Conditions -/

/-- A condition that answers as a criterion does for what the items have in a field. -/
def Answers [CharacterNames] (items : List Value) (e : String × Value) (d : String × Criterion) :
    Prop :=
  e.1 = d.1 ∧ ∀ item ∈ items,
    Tells (d.2.Unread (item.field? e.1)) (d.2.holds (item.field? e.1))
      (conditionHolds e.2 (item.field? e.1))

variable {items : List Value} {name : String}

theorem conditionHolds_equals [CharacterNames] {wanted : Value} (plain : wanted.isMapping = false)
    (v : Option Value) :
    conditionHolds wanted v = .ok ((Criterion.equals wanted).holds v) := by
  have noEntries : wanted.entries? = none := by
    cases wanted <;> first | rfl | cases plain
  rw [conditionHolds, noEntries]
  cases v <;> rfl

theorem conditionHolds_among [CharacterNames] (allowed : List Value) (v : Option Value) :
    conditionHolds (Criteria.operator "$in" (.list allowed)) v =
      .ok ((Criterion.among allowed).holds v) := by
  have found : conditionHolds (Criteria.operator "$in" (.list allowed)) v =
      memberHolds (.list allowed) allowed v := rfl
  rw [found]
  cases v with
  | none => rfl
  | some v =>
    cases v <;> first | rfl | exact anyM_ok fun _ _ => rfl

theorem conditionHolds_exists [CharacterNames] (wanted : Bool) (v : Option Value) :
    conditionHolds (Criteria.operator "$exists" (.bool wanted)) v =
      .ok ((if wanted then Criterion.present else Criterion.absent).holds v) := by
  cases wanted <;> rfl

/-- The text of a value is looked into, unless it cannot be written. -/
theorem conditionHolds_regex [CharacterNames] {source : String} {f : RegexFlags} {p : Pattern}
    (made : Pattern.compile f source = .ok p) (v : Option Value) :
    Tells ((Criterion.like p).Unread v) ((Criterion.like p).holds v)
      (conditionHolds (Criteria.operator "$regex" (.regex source f)) v) := by
  have found : conditionHolds (Criteria.operator "$regex" (.regex source f)) v =
      regexHolds (.regex source f) v := rfl
  have given : Filter.present? v = Criterion.given v := rfl
  rw [found, regexHolds, patternOf, made, text?, given, Criterion.Unread, Criterion.holds]
  cases Criterion.given v with
  | none => exact .answers nofun
  | some w =>
    simp only [bind, Except.bind]
    cases written : w.displayable with
    | false => exact .fails ⟨w, rfl, written⟩
    | true =>
      refine .answers ?_
      rintro ⟨_, ⟨⟩, unwritten⟩
      exact Bool.noConfusion (written.symm.trans unwritten)

/-- A bound that is not null is tried, and none holds of everything. -/
theorem boundHolds_ok {inside : Value → Value → Except Failure Bool} {source bound : Option Value}
    (given : source.bind Value.present? = bound) {v : Value} {g : Value → Bool}
    (each : ∀ b, bound = some b → inside b v = .ok (g b)) :
    boundHolds inside bound v = .ok (bound.all g) := by
  cases bound with
  | none => rfl
  | some b =>
    have kept : Filter.present? (some b) = some b := by
      obtain ⟨w, -, present⟩ := Option.bind_eq_some_iff.1 given
      cases w <;> cases present <;> rfl
    rw [boundHolds, kept]
    exact each b rfl

theorem atMost_of_ok {v w : Value} (comparable : ∃ t, Value.le? v w = .ok t) :
    Value.le? v w = .ok (Criterion.atMost v w) := by
  obtain ⟨t, same⟩ := comparable
  rw [Criterion.atMost, same]
  rfl

theorem conditionHolds_within [CharacterNames] {bounds : Entries} {low high : Option Value}
    {v : Option Value}
    (lows : (bounds.get? (.str "gte")).bind Value.present? = low)
    (highs : (bounds.get? (.str "lte")).bind Value.present? = high)
    (bounded : low.isSome ∨ high.isSome)
    (comparable : ∀ w, Criterion.given v = some w →
      (∀ b, low = some b → ∃ t, Value.le? b w = .ok t) ∧
        ∀ b, high = some b → ∃ t, Value.le? w b = .ok t) :
    conditionHolds (.object (Criteria.bound bounds "gte" ++ Criteria.bound bounds "lte")) v =
      .ok ((Criterion.within low high).holds v) := by
  have found : conditionHolds
      (.object (Criteria.bound bounds "gte" ++ Criteria.bound bounds "lte")) v =
      rangeHolds low high v := by
    rw [Criteria.bound, Criteria.bound, lows, highs]
    cases low with
    | none =>
      cases high with
      | none => simp at bounded
      | some h => rfl
    | some l => cases high <;> rfl
  have given : Filter.present? v = Criterion.given v := rfl
  rw [found, rangeHolds, Criterion.holds, given]
  cases present : Criterion.given v with
  | none => rfl
  | some w =>
    obtain ⟨lowest, highest⟩ := comparable w present
    have above : boundHolds (fun b v => Value.le? b v) low w =
        .ok (low.all fun b => Criterion.atMost b w) :=
      boundHolds_ok lows fun b here => atMost_of_ok (lowest b here)
    have below : boundHolds (fun b v => Value.le? v b) high w =
        .ok (high.all fun b => Criterion.atMost w b) :=
      boundHolds_ok highs fun b here => atMost_of_ok (highest b here)
    dsimp only
    rw [above, below, Option.any_some]
    cases low.all fun b => Criterion.atMost b w <;> rfl

end Filter

end ShapeContract
