import ShapeContract.Proofs.Rule.Keyed
import ShapeContract.Proofs.Wire.Same
import ShapeContract.Proofs.Wire.Writable

/-!
# Values with their keys in another order

Two values that have every key once and are the same data but for the order of keys: the same members
are found in them, the same integers stand in them, and a schema that lists values takes either for
one that it lists.
-/

set_option autoImplicit false

namespace ShapeContract

namespace Value

/-- Every key once, and the same data but for the order of keys at every depth. -/
structure Shuffled (v w : Value) : Prop where
  keyed : v.WellKeyed
  same : SameData v w

/-- One name, and values whose keys may stand in another order. -/
def ShuffledEntry (e f : String × Value) : Prop := e.1 = f.1 ∧ Shuffled e.2 f.2

/-- Mappings with the same names, each once, in any order. -/
structure Reordered (fs gs : Fields Value) : Prop where
  own : fs.keys.Nodup
  aligned : ∃ hs : Fields Value, hs.Perm gs ∧ List.Forall₂ ShuffledEntry fs hs

theorem Shuffled.refl {v : Value} (keyed : v.WellKeyed) : Shuffled v v := ⟨keyed, SameData.refl v⟩

theorem shuffled_list_iff {vs : List Value} {w : Value} :
    Shuffled (.list vs) w ↔ ∃ ws, w = .list ws ∧ List.Forall₂ Shuffled vs ws := by
  constructor
  · rintro ⟨keyed, ws, rfl, items⟩
    refine ⟨ws, rfl, ?_⟩
    have each := wellKeyed_list_iff.1 keyed
    have pairs := (sameItems_iff vs ws).1 items
    clear keyed items
    induction pairs with
    | nil => exact .nil
    | cons head _ ih =>
      obtain ⟨first, others⟩ := List.forall_mem_cons.1 each
      exact .cons ⟨first, head⟩ (ih others)
  · rintro ⟨ws, rfl, pairs⟩
    refine ⟨wellKeyed_list_iff.2 ?_, ws, rfl, (sameItems_iff vs ws).2 (pairs.imp fun _ _ h => h.same)⟩
    induction pairs with
    | nil => exact List.forall_mem_nil _
    | cons head _ ih => exact List.forall_mem_cons.2 ⟨head.keyed, ih⟩

theorem shuffled_object_iff {fs : Fields Value} {w : Value} :
    Shuffled (.object fs) w ↔ ∃ gs, w = .object gs ∧ Reordered fs gs := by
  constructor
  · rintro ⟨keyed, gs, hs, rfl, moved, fields⟩
    obtain ⟨own, each⟩ := wellKeyed_object_iff.1 keyed
    refine ⟨gs, rfl, own, hs, moved, ?_⟩
    have pairs := (sameFields_iff fs hs).1 fields
    clear keyed own moved fields
    induction pairs with
    | nil => exact .nil
    | cons head _ ih =>
      obtain ⟨first, others⟩ := List.forall_mem_cons.1 each
      exact .cons ⟨head.1, first, head.2⟩ (ih others)
  · rintro ⟨gs, rfl, own, hs, moved, pairs⟩
    refine ⟨wellKeyed_object_iff.2 ⟨own, ?_⟩, gs, hs, rfl, moved,
      (sameFields_iff fs hs).2 (pairs.imp fun _ _ h => ⟨h.1, h.2.same⟩)⟩
    clear own moved
    induction pairs with
    | nil => exact List.forall_mem_nil _
    | cons head _ ih => exact List.forall_mem_cons.2 ⟨head.2.keyed, ih⟩

/-- Lists item by item, mappings in any order, and other values as they are. -/
theorem Shuffled.cases {v w : Value} (shuffled : Shuffled v w) :
    (∃ vs ws, v = .list vs ∧ w = .list ws ∧ List.Forall₂ Shuffled vs ws) ∨
      (∃ fs gs, v = .object fs ∧ w = .object gs ∧ Reordered fs gs) ∨ v = w := by
  cases v with
  | list vs =>
    obtain ⟨ws, same, pairs⟩ := shuffled_list_iff.1 shuffled
    exact .inl ⟨vs, ws, rfl, same, pairs⟩
  | object fs =>
    obtain ⟨gs, same, reordered⟩ := shuffled_object_iff.1 shuffled
    exact .inr (.inl ⟨fs, gs, rfl, same, reordered⟩)
  | _ => exact .inr (.inr shuffled.same)

/-! ## What is found in them -/

section Aligned

variable {fs hs : Fields Value} (aligned : List.Forall₂ ShuffledEntry fs hs)

include aligned

theorem keys_of_aligned : fs.keys = hs.keys := by
  induction aligned with
  | nil => rfl
  | cons head _ ih => exact congrArg₂ List.cons head.1 ih

theorem get?_of_aligned (name : String) :
    Option.Rel Shuffled (fs.get? name) (hs.get? name) := by
  induction aligned with
  | nil => exact .none
  | @cons e f _ _ head _ ih =>
    obtain ⟨other, v⟩ := e
    obtain ⟨_, w⟩ := f
    obtain ⟨rfl, values⟩ : other = _ ∧ Shuffled v w := head
    rw [Fields.get?_cons, Fields.get?_cons]
    split
    · exact .some values
    · exact ih

end Aligned

namespace Reordered

variable {fs gs : Fields Value}

theorem length_eq (reordered : Reordered fs gs) : fs.length = gs.length := by
  obtain ⟨hs, moved, aligned⟩ := reordered.aligned
  exact aligned.length_eq.trans moved.length_eq

theorem keys_perm (reordered : Reordered fs gs) : fs.keys.Perm gs.keys := by
  obtain ⟨hs, moved, aligned⟩ := reordered.aligned
  rw [keys_of_aligned aligned]
  exact moved.map _

/-- A name has values in both or in neither. -/
theorem get? (reordered : Reordered fs gs) (name : String) :
    Option.Rel Shuffled (Fields.get? fs name) (Fields.get? gs name) := by
  obtain ⟨hs, moved, aligned⟩ := reordered.aligned
  have own : hs.keys.Nodup := keys_of_aligned aligned ▸ reordered.own
  rw [← Fields.get?_perm own moved]
  exact get?_of_aligned aligned name

theorem contains_eq (reordered : Reordered fs gs) (name : String) :
    Fields.contains fs name = Fields.contains gs name := by
  have found := reordered.get? name
  unfold Fields.contains
  generalize Fields.get? fs name = x, Fields.get? gs name = y at found ⊢
  cases found <;> rfl

end Reordered

/-! ## What they hold -/

mutual

theorem writable_of_sameData : ∀ v w : Value, SameData v w → v.writable = w.writable
  | .list vs, _, ⟨ws, rfl, items⟩ => writableAll_of_sameItems vs ws items
  | .object fs, _, ⟨gs, hs, rfl, moved, fields⟩ => by
    have aligned := writableFields_of_sameFields fs hs fields
    have same : writableFields hs = writableFields gs := by
      rw [Bool.eq_iff_iff, writableFields_iff, writableFields_iff]
      simp only [moved.mem_iff]
    exact aligned.trans same
  | .null, _, rfl | .bool _, _, rfl | .int _, _, rfl | .float _, _, rfl | .str _, _, rfl
  | .mapping _ _, _, rfl | .tuple _, _, rfl | .set _, _, rfl | .regex _ _, _, rfl
  | .native _, _, rfl | .enumeration _ _ _, _, rfl | .member _ _ _ _, _, rfl
  | .datetime _, _, rfl | .date _, _, rfl | .callable, _, rfl | .rule _, _, rfl
  | .source _, _, rfl => rfl

theorem writableAll_of_sameItems : ∀ vs ws : List Value, SameItems vs ws →
    writableAll vs = writableAll ws
  | [], _, rfl => rfl
  | v :: vs, _, ⟨x, xs, rfl, same, others⟩ => by
    rw [writableAll, writableAll, writable_of_sameData v x same,
      writableAll_of_sameItems vs xs others]

theorem writableFields_of_sameFields : ∀ fs gs : List (String × Value), SameFields fs gs →
    writableFields fs = writableFields gs
  | [], _, rfl => rfl
  | (k, v) :: fs, _, ⟨x, hs, rfl, same, others⟩ => by
    rw [writableFields, writableFields, writable_of_sameData v x same,
      writableFields_of_sameFields fs hs others]

end

mutual

/-- A value that a schema lists is taken for either. -/
theorem same_shuffled : ∀ (u : Value) {v w : Value}, Shuffled v w → Wire.same u v = Wire.same u w
  | .list us, v, w, shuffled => by
    rcases shuffled.cases with ⟨vs, ws, rfl, rfl, pairs⟩ | ⟨fs, gs, rfl, rfl, -⟩ | rfl
    · exact sameAll_shuffled us pairs
    · rfl
    · rfl
  | .tuple us, v, w, shuffled => by
    rcases shuffled.cases with ⟨vs, ws, rfl, rfl, pairs⟩ | ⟨fs, gs, rfl, rfl, -⟩ | rfl
    · exact sameAll_shuffled us pairs
    · rfl
    · rfl
  | .object us, v, w, shuffled => by
    rcases shuffled.cases with ⟨vs, ws, rfl, rfl, -⟩ | ⟨fs, gs, rfl, rfl, reordered⟩ | rfl
    · rfl
    · rw [Wire.same, Wire.same, reordered.length_eq, sameFields_shuffled us reordered]
    · rfl
  | .null, _, _, shuffled | .bool _, _, _, shuffled | .int _, _, _, shuffled
  | .float _, _, _, shuffled | .str _, _, _, shuffled | .mapping _ _, _, _, shuffled
  | .set _, _, _, shuffled | .regex _ _, _, _, shuffled | .native _, _, _, shuffled
  | .enumeration _ _ _, _, _, shuffled | .member _ _ _ _, _, _, shuffled
  | .datetime _, _, _, shuffled | .date _, _, _, shuffled | .callable, _, _, shuffled
  | .rule _, _, _, shuffled | .source _, _, _, shuffled => by
    rcases shuffled.cases with ⟨vs, ws, rfl, rfl, -⟩ | ⟨fs, gs, rfl, rfl, -⟩ | rfl <;> rfl

theorem sameAll_shuffled : ∀ (us : List Value) {vs ws : List Value},
    List.Forall₂ Shuffled vs ws → Wire.sameAll us vs = Wire.sameAll us ws
  | [], _, _, pairs => by cases pairs <;> rfl
  | u :: us, _, _, pairs => by
    cases pairs with
    | nil => rfl
    | cons head tail => rw [Wire.sameAll, Wire.sameAll, same_shuffled u head, sameAll_shuffled us tail]

theorem sameFields_shuffled : ∀ (us : List (String × Value)) {fs gs : Fields Value},
    Reordered fs gs → Wire.sameFields us fs = Wire.sameFields us gs
  | [], _, _, _ => rfl
  | (name, u) :: us, fs, gs, reordered => by
    rw [Wire.sameFields, Wire.sameFields, sameFields_shuffled us reordered]
    have found := reordered.get? name
    generalize Fields.get? fs name = x, Fields.get? gs name = y at found ⊢
    cases found with
    | none => rfl
    | some values => simp only [same_shuffled u values]

end

end Value

end ShapeContract
