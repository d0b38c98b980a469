import ShapeContract.Proofs.Fields
import ShapeContract.Proofs.Overrides.Key
import ShapeContract.Proofs.Overrides.Sharing
import ShapeContract.Rule.Record

/-!
# Every key once

A mapping has each of its keys once. `Value.WellKeyed` says so of a value at every depth, and
`Rule.WellKeyed` of a rule: of its children and of every default. A rule that is read from such a
record is such a rule.
-/

set_option autoImplicit false

namespace ShapeContract

/-! ## Values -/

namespace Value

mutual

/-- Every mapping in the value has each key once. -/
def WellKeyed : Value → Prop
  | .list vs => AllWellKeyed vs
  | .tuple vs => AllWellKeyed vs
  | .set vs => AllWellKeyed vs
  | .mapping _ vs => AllWellKeyed vs
  | .object fs => (Fields.keys fs).Nodup ∧ FieldsWellKeyed fs
  | .rule fs => (Fields.keys fs).Nodup ∧ FieldsWellKeyed fs
  | _ => True

def AllWellKeyed : List Value → Prop
  | [] => True
  | v :: vs => WellKeyed v ∧ AllWellKeyed vs

def FieldsWellKeyed : List (String × Value) → Prop
  | [] => True
  | (_, v) :: rest => WellKeyed v ∧ FieldsWellKeyed rest

end

theorem allWellKeyed_iff {vs : List Value} : AllWellKeyed vs ↔ ∀ v ∈ vs, v.WellKeyed := by
  induction vs with
  | nil => simp [AllWellKeyed]
  | cons v vs ih => simp [AllWellKeyed, ih]

theorem fieldsWellKeyed_iff {fs : Fields Value} :
    FieldsWellKeyed fs ↔ ∀ e ∈ fs, e.2.WellKeyed := by
  induction fs with
  | nil => simp [FieldsWellKeyed]
  | cons e rest ih =>
    obtain ⟨name, v⟩ := e
    simp [FieldsWellKeyed, ih]

theorem wellKeyed_list_iff {vs : List Value} :
    (Value.list vs).WellKeyed ↔ ∀ v ∈ vs, v.WellKeyed := allWellKeyed_iff

theorem wellKeyed_object_iff {fs : Fields Value} :
    (Value.object fs).WellKeyed ↔ fs.keys.Nodup ∧ ∀ e ∈ fs, e.2.WellKeyed :=
  and_congr_right fun _ => fieldsWellKeyed_iff

/-- A mapping with further entries written to it. -/
theorem wellKeyed_putAll {fs more : Fields Value} (keyed : (Value.object fs).WellKeyed)
    (each : ∀ e ∈ more, e.2.WellKeyed) : (Value.object (fs.putAll more)).WellKeyed := by
  obtain ⟨own, old⟩ := wellKeyed_object_iff.1 keyed
  refine wellKeyed_object_iff.2 ⟨Fields.nodup_keys_putAll own more, fun e inside => ?_⟩
  rcases Fields.mem_putAll inside with before | later
  · exact old e before
  · exact each e later

end Value

/-! ## Rules -/

namespace Rule

/-- Induction over a rule: a node with its element rule and the rules of its children. -/
@[elab_as_elim]
theorem induct {P : Rule → Prop}
    (node : ∀ f items children, (∀ r, items = some r → P r) →
      (∀ e ∈ children.getD [], P e.2) → P ⟨f, items, children⟩) (r : Rule) : P r :=
  Rule.rec (motive_1 := P) (motive_2 := fun items => ∀ r, items = some r → P r)
    (motive_3 := fun children => ∀ e ∈ children.getD [], P e.2)
    (motive_4 := fun cs => ∀ e ∈ cs, P e.2) (motive_5 := fun e => P e.2)
    node
    (fun _ none => nomatch none)
    (fun _ element _ same => Option.some.inj same ▸ element)
    (fun _ inside => nomatch inside)
    (fun _ each => each)
    (fun _ inside => nomatch inside)
    (fun _ _ first rest => List.forall_mem_cons.2 ⟨first, rest⟩)
    (fun _ _ child => child) r

mutual

/-- Every key once: among the names of children, and in every default, at every depth. -/
def WellKeyed : Rule → Prop
  | ⟨f, items, children⟩ =>
    (∀ v, f.default = some v → v.WellKeyed) ∧ ItemsWellKeyed items ∧ ChildrenWellKeyed children

def ItemsWellKeyed : Option Rule → Prop
  | none => True
  | some r => WellKeyed r

def ChildrenWellKeyed : Option (List (String × Rule)) → Prop
  | none => True
  | some cs => (Fields.keys cs).Nodup ∧ FieldsWellKeyed cs

def FieldsWellKeyed : List (String × Rule) → Prop
  | [] => True
  | (_, c) :: rest => WellKeyed c ∧ FieldsWellKeyed rest

end

theorem fieldsWellKeyed_iff {cs : Fields Rule} :
    FieldsWellKeyed cs ↔ ∀ e ∈ cs, e.2.WellKeyed := by
  induction cs with
  | nil => simp [FieldsWellKeyed]
  | cons e rest ih =>
    obtain ⟨name, c⟩ := e
    simp [FieldsWellKeyed, ih]

theorem childrenWellKeyed_iff {children : Option (List (String × Rule))} :
    ChildrenWellKeyed children ↔
      (Fields.keys (children.getD [])).Nodup ∧ ∀ e ∈ children.getD [], e.2.WellKeyed := by
  cases children with
  | none => simp [ChildrenWellKeyed, Fields.keys]
  | some cs => exact and_congr_right fun _ => fieldsWellKeyed_iff

/-! ### Reading -/

theorem bind_ok_iff {α β : Type} {x : Except Failure α} {f : α → Except Failure β} {b : β} :
    (x >>= f) = .ok b ↔ ∃ a, x = .ok a ∧ f a = .ok b := by
  cases x <;> simp [bind, Except.bind]

/-- The element rule that a record says, read at its name. -/
theorem itemsIn_eq (fs : Fields Value) :
    itemsIn fs = match fs.get? "items" with
      | none => pure none
      | some .null => pure none
      | some v => return some (← ofValue v) := by
  induction fs with
  | nil => rfl
  | cons e rest ih =>
    obtain ⟨name, v⟩ := e
    unfold itemsIn
    by_cases here : name = "items"
    · rw [if_pos here, Fields.get?_cons, if_pos here]
      cases v <;> rfl
    · rw [if_neg here, Fields.get?_cons, if_neg here, ih]

/-- The children that a record says, read at their name. -/
theorem childrenIn_eq (fs : Fields Value) :
    childrenIn fs = match fs.get? "children" with
      | none => pure none
      | some .null => pure none
      | some (.object cs) => return some (← ofFields cs)
      | some (.rule _) => throw .typeMisuse
      | some _ => throw .attributeMisuse := by
  induction fs with
  | nil => rfl
  | cons e rest ih =>
    obtain ⟨name, v⟩ := e
    unfold childrenIn
    by_cases here : name = "children"
    · rw [if_pos here, Fields.get?_cons, if_pos here]
      cases v <;> rfl
    · rw [if_neg here, Fields.get?_cons, if_neg here, ih]

/-- The default of a record is one of its values. -/
theorem default_of_facetsOf {fs : Fields Value} {f : Facets} (read : facetsOf fs = .ok f) :
    f.default = fs.get? "default" := by
  unfold facetsOf at read
  simp only [bind, Except.bind] at read
  repeat' split at read
  all_goals first | (cases read; rfl) | cases read

theorem exists_of_itemsIn {fs : Fields Value} {r : Rule} (read : itemsIn fs = .ok (some r)) :
    ∃ v, ("items", v) ∈ fs ∧ ofValue v = .ok r := by
  induction fs with
  | nil => cases read
  | cons e rest ih =>
    obtain ⟨name, v⟩ := e
    unfold itemsIn at read
    split at read
    next here =>
      subst here
      split at read
      next => cases read
      next =>
        obtain ⟨c, element, same⟩ := bind_ok_iff.1 read
        cases same
        exact ⟨v, List.mem_cons_self, element⟩
    next =>
      obtain ⟨w, inside, element⟩ := ih read
      exact ⟨w, List.mem_cons_of_mem _ inside, element⟩

theorem exists_of_childrenIn {fs : Fields Value} {cs : Fields Rule}
    (read : childrenIn fs = .ok (some cs)) :
    ∃ gs, ("children", .object gs) ∈ fs ∧ ofFields gs = .ok cs := by
  induction fs with
  | nil => cases read
  | cons e rest ih =>
    obtain ⟨name, v⟩ := e
    unfold childrenIn at read
    split at read
    next here =>
      subst here
      split at read
      next => cases read
      next gs =>
        obtain ⟨ds, children, same⟩ := bind_ok_iff.1 read
        cases same
        exact ⟨gs, List.mem_cons_self, children⟩
      next => cases read
      next => cases read
    next =>
      obtain ⟨gs, inside, children⟩ := ih read
      exact ⟨gs, List.mem_cons_of_mem _ inside, children⟩

theorem keys_ofFields {gs : Fields Value} {cs : Fields Rule} (read : ofFields gs = .ok cs) :
    cs.keys = gs.keys := by
  induction gs generalizing cs with
  | nil => cases read; rfl
  | cons e rest ih =>
    obtain ⟨name, v⟩ := e
    simp only [ofFields, bind_ok_iff] at read
    obtain ⟨r, -, rs, later, same⟩ := read
    cases same
    exact congrArg (name :: ·) (ih later)

theorem exists_of_ofFields {gs : Fields Value} {cs : Fields Rule} (read : ofFields gs = .ok cs)
    {e : String × Rule} (inside : e ∈ cs) : ∃ v, (e.1, v) ∈ gs ∧ ofValue v = .ok e.2 := by
  induction gs generalizing cs with
  | nil => cases read; cases inside
  | cons head rest ih =>
    obtain ⟨name, v⟩ := head
    simp only [ofFields, bind_ok_iff] at read
    obtain ⟨r, here, rs, later, same⟩ := read
    cases same
    rcases List.mem_cons.1 inside with rfl | among
    · exact ⟨v, List.mem_cons_self, here⟩
    · obtain ⟨w, deep, element⟩ := ih later among
      exact ⟨w, List.mem_cons_of_mem _ deep, element⟩

theorem wellKeyed_settled {f : Facets} {items : Option Rule}
    {children : Option (List (String × Rule))} (keyed : WellKeyed ⟨f, items, children⟩) :
    (settled ⟨f, items, children⟩).WellKeyed := by
  unfold settled
  split
  · exact ⟨keyed.1, keyed.2.1, List.nodup_nil, trivial⟩
  · exact keyed

/-- The step of `wellKeyed_ofValue`: what is read from the values of a record has every key once. -/
theorem wellKeyed_of_record {fs : Fields Value}
    (below : ∀ e ∈ fs, ∀ r, ofValue e.2 = .ok r → r.WellKeyed)
    (children : ∀ gs, ("children", .object gs) ∈ fs →
      (Fields.keys gs).Nodup ∧ ∀ e ∈ gs, ∀ r, ofValue e.2 = .ok r → r.WellKeyed)
    (values : ∀ e ∈ fs, e.2.WellKeyed) {items : Option Rule}
    {kids : Option (List (String × Rule))} {f : Facets} (element : itemsIn fs = .ok items)
    (named : childrenIn fs = .ok kids) (facets : facetsOf fs = .ok f) :
    (settled ⟨f, items, kids⟩).WellKeyed := by
  apply wellKeyed_settled
  refine ⟨?_, ?_, ?_⟩
  · intro v declared
    rw [default_of_facetsOf facets] at declared
    exact values _ (Fields.mem_of_get? declared)
  · cases items with
    | none => trivial
    | some r =>
      obtain ⟨v, inside, read⟩ := exists_of_itemsIn element
      exact below _ inside r read
  · cases kids with
    | none => trivial
    | some cs =>
      obtain ⟨gs, inside, read⟩ := exists_of_childrenIn named
      obtain ⟨own, each⟩ := children gs inside
      refine ⟨keys_ofFields read ▸ own, fieldsWellKeyed_iff.2 fun e among => ?_⟩
      obtain ⟨v, deep, child⟩ := exists_of_ofFields read among
      exact each _ deep e.2 child

/-- **A rule that is read from a record with every key once has every key once.** -/
theorem wellKeyed_ofValue {v : Value} {r : Rule} (keyed : v.WellKeyed) (read : ofValue v = .ok r) :
    r.WellKeyed := by
  induction size : sizeOf v using Nat.strongRecOn generalizing v r with
  | ind n ih =>
    have smaller : ∀ {fs : Fields Value} {e : String × Value}, e ∈ fs → sizeOf e.2 < sizeOf fs := by
      intro fs e inside
      have entry := List.sizeOf_lt_of_mem inside
      obtain ⟨name, w⟩ := e
      rw [Prod.mk.sizeOf_spec] at entry
      exact (Nat.le_add_left _ _).trans_lt entry
    have record : ∀ fs : Fields Value, sizeOf fs < n → (∀ e ∈ fs, e.2.WellKeyed) →
        (do
          let items ← itemsIn fs
          let children ← childrenIn fs
          let facets ← facetsOf fs
          pure (settled ⟨facets, items, children⟩)) = .ok r → r.WellKeyed := by
      intro fs within values read
      obtain ⟨items, element, read⟩ := bind_ok_iff.1 read
      obtain ⟨kids, named, read⟩ := bind_ok_iff.1 read
      obtain ⟨f, facets, read⟩ := bind_ok_iff.1 read
      cases read
      refine wellKeyed_of_record ?_ ?_ values element named facets
      · intro e inside r read
        have less := smaller inside
        exact ih _ (by omega) (values e inside) read rfl
      · intro gs inside
        obtain ⟨own, each⟩ := Value.wellKeyed_object_iff.1 (values _ inside)
        refine ⟨own, fun e among r read => ?_⟩
        have outer := smaller inside
        have inner := smaller among
        simp only [Value.object.sizeOf_spec] at outer
        exact ih _ (by omega) (each e among) read rfl
    cases v with
    | object fs =>
      refine record fs ?_ (Value.wellKeyed_object_iff.1 keyed).2 (by rwa [ofValue] at read)
      rw [← size, Value.object.sizeOf_spec]
      omega
    | rule fs =>
      refine record fs ?_ (Value.fieldsWellKeyed_iff.1 keyed.2) (by rwa [ofValue] at read)
      rw [← size, Value.rule.sizeOf_spec]
      omega
    | _ => cases read

end Rule

end ShapeContract
