import ShapeContract.Proofs.Double.Text
import ShapeContract.Proofs.Introspection.Visit

/-!
# Records of introspection

An introspection that succeeds ends with a record of depth zero; one that fails has no such record,
and sub-schemas have none either. The records tell how often a schema has been introspected.
-/

set_option autoImplicit false

namespace ShapeContract

/-- A record that ends the introspection of a schema, not only of a sub-schema. -/
def JournalRecord.isIntrospection (r : JournalRecord) : Bool :=
  r.channel = .introspection && " at depth 0".toList.isSuffixOf r.message.toList

namespace Introspection

/-- A text that ends in a number ends in a zero after a blank only if the number is zero. -/
theorem digits_eq_of_suffix {front : List Char} {n : Nat}
    (ends : " at depth 0".toList <:+ front ++ ' ' :: Decimal.digits n) :
    Decimal.digits n = ['0'] := by
  obtain ⟨rest, same⟩ := ends
  have digits := Decimal.allDigits_digits n
  have last : ∀ before after : List Char, (∀ c ∈ after, Decimal.isDigit c = true) →
      ((before ++ ' ' :: after).reverse.takeWhile Decimal.isDigit).reverse = after := by
    intro before after all
    rw [List.reverse_append, List.reverse_cons, List.append_assoc, List.takeWhile_append_of_pos]
    · simp [show Decimal.isDigit ' ' = false from rfl]
    · exact fun c inside => all c (List.mem_reverse.1 inside)
  have zero := last (rest ++ " at depth".toList) ['0'] fun _ inside =>
    List.mem_singleton.1 inside ▸ rfl
  have number := last front (Decimal.digits n) digits
  have whole : rest ++ " at depth".toList ++ ' ' :: ['0'] = front ++ ' ' :: Decimal.digits n := by
    rw [← same, List.append_assoc]
    rfl
  rw [whole] at zero
  exact number.symm.trans zero

/-- The record of a depth ends an introspection exactly at depth zero. -/
theorem isIntrospection_noteDone (typeName : String) (depth : Nat) (name : Value) (count : Nat) :
    (noteDone typeName depth name count).isIntrospection = decide (depth = 0) := by
  have message : (noteDone typeName depth name count).message.toList =
      ("Introspected " ++ typeName ++ " at depth").toList ++ ' ' :: Decimal.digits depth := by
    simp [noteDone, Decimal.text, String.toList_append]
  rw [JournalRecord.isIntrospection, message, Bool.eq_iff_iff]
  simp only [noteDone, decide_true, Bool.true_and, List.isSuffixOf_iff_suffix,
    decide_eq_true_eq]
  constructor
  · intro ends
    have value := Decimal.value_digits depth
    rw [digits_eq_of_suffix ends] at value
    exact value.symm
  · rintro rfl
    refine ⟨("Introspected " ++ typeName).toList, ?_⟩
    rw [show Decimal.digits 0 = ['0'] from by rw [Decimal.digits]; rfl]
    simp [String.toList_append]

end Introspection

/-! ## Records of a traced computation -/

namespace Traced

variable {α β : Type}

/-- None of the records ends the introspection of a schema. -/
def Quiet (x : Traced α) : Prop := ∀ r ∈ x.records, r.isIntrospection = false

namespace Quiet

theorem lift (x : Except Failure α) : Quiet (.lift x) := fun _ inside => nomatch inside

theorem fail (e : Failure) : Quiet (.fail e : Traced α) := fun _ inside => nomatch inside

theorem pure (a : α) : Quiet (Pure.pure a : Traced α) := fun _ inside => nomatch inside

theorem bind {x : Traced α} {f : α → Traced β} (first : x.Quiet) (second : ∀ a, (f a).Quiet) :
    (x >>= f).Quiet := by
  show Quiet (Traced.bind x f)
  unfold Traced.bind
  split
  · exact first
  next a _ =>
    intro r inside
    exact (List.mem_append.1 inside).elim (first r) (second a r)

theorem foldlM {f : β → α → Traced β} (step : ∀ b a, (f b a).Quiet) (as : List α) (b : β) :
    (as.foldlM f b).Quiet := by
  induction as generalizing b with
  | nil => exact pure b
  | cons a rest ih =>
    rw [List.foldlM_cons]
    exact bind (step b a) fun b => ih b

end Quiet

/-- How many introspections end. -/
def introspections (x : Traced α) : Nat := x.records.countP JournalRecord.isIntrospection

theorem Quiet.introspections {x : Traced α} (quiet : x.Quiet) : x.introspections = 0 :=
  List.countP_eq_zero.2 fun r inside => by simp [quiet r inside]

end Traced

namespace Introspection

variable {descend : Target → Traced Rule}

theorem quiet_itemsRule (quiet : ∀ target, (descend target).Quiet) (caster : Descriptor) :
    (itemsRule descend caster).Quiet := by
  refine .bind (.lift _) fun type => .bind (.lift _) fun opts => .bind (.lift _) fun facets => ?_
  cases Target.of? caster with
  | none => exact .pure _
  | some target => exact .bind (quiet target) fun sub => .pure _

theorem quiet_ruleOf (quiet : ∀ target, (descend target).Quiet) (d : Descriptor) :
    (ruleOf descend d).Quiet := by
  refine .bind (.lift _) fun type => .bind (.lift _) fun opts => .bind (.lift _) fun facets => ?_
  dsimp only
  split
  · refine .bind (quiet_itemsRule quiet _) fun r => .bind (.pure _) fun items => ?_
    split
    · exact .pure _
    · exact .bind (quiet _) fun sub => .pure _
  · refine .bind (.pure _) fun items => ?_
    split
    · exact .pure _
    · exact .bind (quiet _) fun sub => .pure _

theorem quiet_visits {descend : String → Target → Traced Rule}
    (quiet : ∀ name target, (descend name target).Quiet)
    (entries : List (String × Except Failure Descriptor)) (tree : Rule) :
    (entries.foldlM (visit descend) tree).Quiet := by
  refine .foldlM (fun tree e => ?_) entries tree
  unfold visit
  exact .bind (.lift _) fun d => .bind (quiet_ruleOf (quiet e.1) d) fun _ => .pure _

/-- Sub-schemas only have records of their depth. -/
theorem quiet_walk (catalog : Catalog) (bound : Int) (levels : Nat) : ∀ (depth : Nat) (path : String)
    (target : Target), (walk catalog bound (depth + 1) path levels target).Quiet := by
  induction levels with
  | zero => exact fun _ _ _ => .fail _
  | succ levels ih =>
    intro depth path target
    rw [walk_succ]
    refine .bind (.lift _) fun entries => .bind (quiet_visits (fun name => ih _ _) entries _)
      fun tree => .bind ?_ fun _ => .pure tree
    intro r inside
    obtain rfl := List.mem_singleton.1 inside
    exact isIntrospection_noteDone ..

/-- What is visited has no such record; the last one is of its depth. -/
theorem introspections_visitAll {descend : String → Target → Traced Rule}
    (quiet : ∀ name target, (descend name target).Quiet) (catalog : Catalog) (target : Target)
    (entries : List (String × Except Failure Descriptor)) :
    (visitAll catalog 0 target descend entries).introspections =
      if (visitAll catalog 0 target descend entries).outcome.isOk then 1 else 0 := by
  have none := (quiet_visits quiet entries Rule.empty).introspections
  unfold visitAll
  generalize entries.foldlM (visit descend) Rule.empty = visits at none ⊢
  obtain ⟨outcome, records⟩ := visits
  cases outcome with
  | error e => exact none
  | ok tree =>
    have last := isIntrospection_noteDone target.typeName 0 (target.name catalog) tree.kids.length
    have records : records.countP JournalRecord.isIntrospection = 0 := none
    change (_ ++ [noteDone _ _ _ _]).countP _ = 1
    rw [List.countP_append, records, List.countP_singleton, last]
    rfl

/-- **An introspection is recorded once if it succeeds**, and else not at all. -/
theorem introspections_introspect (catalog : Catalog) (bound : Int) (schema : Value) :
    (introspect catalog bound schema).introspections =
      if (introspect catalog bound schema).outcome.isOk then 1 else 0 := by
  unfold introspect
  cases (bound + 1).toNat with
  | zero => rfl
  | succ levels =>
    rw [walk_succ]
    cases Target.entries catalog (.value schema) with
    | error e => rfl
    | ok entries =>
      exact introspections_visitAll (fun name => quiet_walk catalog bound levels 0 _) catalog _ entries

end Introspection

end ShapeContract
