import Mathlib.Data.List.Forall2
import ShapeContract.Failure

/-!
# Lists worked through

The last item with a property, lists that are related item by item, and lists whose items are worked
through one after the other until one fails.
-/

set_option autoImplicit false

namespace ShapeContract

/-- Either no entry has a property, or some entry is the last that has it. -/
theorem exists_last_or {α : Type} (p : α → Prop) (xs : List α) :
    (∀ x ∈ xs, ¬ p x) ∨ ∃ before x after, xs = before ++ x :: after ∧ p x ∧ ∀ y ∈ after, ¬ p y := by
  induction xs with
  | nil => exact .inl fun _ inside => nomatch inside
  | cons x rest ih =>
    rcases ih with none | ⟨before, y, after, rfl, holds, last⟩
    · by_cases holds : p x
      · exact .inr ⟨[], x, rest, rfl, holds, none⟩
      · exact .inl (List.forall_mem_cons.2 ⟨holds, none⟩)
    · exact .inr ⟨x :: before, y, after, rfl, holds, last⟩

section Related

variable {α β : Type}

/-- A partner for each element gives a list of partners. -/
theorem exists_forall₂ {P : α → β → Prop} {as : List α}
    (each : ∀ a ∈ as, ∃ b, P a b) : ∃ bs, List.Forall₂ P as bs := by
  induction as with
  | nil => exact ⟨[], .nil⟩
  | cons a rest ih =>
    obtain ⟨first, others⟩ := List.forall_mem_cons.1 each
    obtain ⟨b, here⟩ := first
    obtain ⟨bs, later⟩ := ih others
    exact ⟨b :: bs, .cons here later⟩

/-- Each element of the left list has its partner in the right one. -/
theorem exists_of_forall₂ {R : α → β → Prop} {as : List α} {bs : List β}
    (pairs : List.Forall₂ R as bs) {a : α} (inside : a ∈ as) : ∃ b ∈ bs, R a b := by
  induction pairs with
  | nil => cases inside
  | cons head _ ih =>
    rcases List.mem_cons.1 inside with rfl | later
    · exact ⟨_, List.mem_cons_self, head⟩
    · obtain ⟨b, there, related⟩ := ih later
      exact ⟨b, List.mem_cons_of_mem _ there, related⟩

/-- What stands at one place of a list stands at the same place of a list that is related to it. -/
theorem forall₂_split {R : α → β → Prop} {before after : List α} {e : α} : ∀ {ds : List β},
    List.Forall₂ R (before ++ e :: after) ds → ∃ before' d after', ds = before' ++ d :: after' ∧
      List.Forall₂ R before before' ∧ R e d ∧ List.Forall₂ R after after' := by
  induction before with
  | nil =>
    rintro _ (_ | ⟨head, tail⟩)
    exact ⟨[], _, _, rfl, .nil, head, tail⟩
  | cons first rest ih =>
    rintro _ (_ | ⟨head, tail⟩)
    obtain ⟨before', d, after', rfl, others, same, later⟩ := ih tail
    exact ⟨_ :: before', d, after', rfl, .cons head others, same, later⟩

/-- A relation through a list in the middle. -/
theorem forall₂_through {γ : Type} {R : α → β → Prop} {S : α → γ → Prop} {T : β → γ → Prop}
    (step : ∀ a b c, R a b → S a c → T b c) {as : List α} {bs : List β} {cs : List γ}
    (first : List.Forall₂ R as bs) (second : List.Forall₂ S as cs) : List.Forall₂ T bs cs := by
  induction first generalizing cs with
  | nil =>
    cases second
    exact .nil
  | cons head _ ih =>
    cases second with
    | cons head' tail' => exact .cons (step _ _ _ head head') (ih tail')

/-- Of equally many things on both sides, all that are different on the one side match different
things on the other, so these are all matched. -/
theorem exists_matched {R : α → β → Prop} {as : List α} {bs : List β}
    (count : as.length = bs.length) (apart : as.Pairwise fun a a' => ∀ b ∈ bs, R a b → ¬ R a' b)
    (each : ∀ a ∈ as, ∃ b ∈ bs, R a b) : ∀ b ∈ bs, ∃ a ∈ as, R a b := by
  induction as generalizing bs with
  | nil =>
    intro b inside
    rw [List.length_eq_zero_iff.1 count.symm] at inside
    cases inside
  | cons a rest ih =>
    obtain ⟨first, later⟩ := List.pairwise_cons.1 apart
    obtain ⟨b, there, matched⟩ := each a List.mem_cons_self
    obtain ⟨front, back, rfl⟩ := List.append_of_mem there
    have others : ∀ d, d ∈ front ++ back → d ∈ front ++ b :: back := by
      intro d inside
      simp only [List.mem_append, List.mem_cons] at inside ⊢
      exact inside.imp_right .inr
    have all : ∀ d ∈ front ++ back, ∃ c ∈ rest, R c d := by
      refine ih ?_ ?_ ?_
      · simp only [List.length_append, List.length_cons] at count ⊢
        omega
      · exact later.imp fun differ d inside => differ d (others d inside)
      · intro c here
        obtain ⟨d, inside, found⟩ := each c (List.mem_cons_of_mem a here)
        have other : d ≠ b := by
          rintro rfl
          exact first c here d inside matched found
        simp only [List.mem_append, List.mem_cons, other, false_or] at inside
        exact ⟨d, List.mem_append.2 inside, found⟩
    intro d inside
    by_cases same : d = b
    · exact ⟨a, List.mem_cons_self, same ▸ matched⟩
    · simp only [List.mem_append, List.mem_cons, same, false_or] at inside
      obtain ⟨c, here, found⟩ := all d (List.mem_append.2 inside)
      exact ⟨c, List.mem_cons_of_mem a here, found⟩

end Related

section Results

variable {α β : Type} {f : α → Except Failure β}

theorem mapM_cons_ok {x : α} {y : β} {xs : List α} {ys : List β} (head : f x = .ok y)
    (tail : xs.mapM f = .ok ys) : (x :: xs).mapM f = .ok (y :: ys) := by
  rw [List.mapM_cons, head, tail]
  rfl

/-- A list is worked through exactly if every item is. -/
theorem mapM_ok_iff {xs : List α} {ys : List β} :
    xs.mapM f = .ok ys ↔ List.Forall₂ (fun x y => f x = .ok y) xs ys := by
  constructor
  · intro done
    induction xs generalizing ys with
    | nil => cases done; exact .nil
    | cons x xs ih =>
      rw [List.mapM_cons] at done
      cases head : f x with
      | error e => rw [head] at done; cases done
      | ok y =>
        cases tail : xs.mapM f with
        | error e => rw [head, tail] at done; cases done
        | ok zs =>
          rw [head, tail] at done
          cases done
          exact .cons head (ih tail)
  · intro each
    induction each with
    | nil => rfl
    | cons head _ ih => exact mapM_cons_ok head ih

/-- The first failure among the items is that of the list. -/
theorem exists_of_mapM_error {xs : List α} {e : Failure} (fails : xs.mapM f = .error e) :
    ∃ x ∈ xs, f x = .error e := by
  induction xs with
  | nil => cases fails
  | cons x xs ih =>
    rw [List.mapM_cons] at fails
    cases head : f x with
    | error e' =>
      rw [head] at fails
      cases fails
      exact ⟨x, List.mem_cons_self, head⟩
    | ok y =>
      cases tail : xs.mapM f with
      | error e' =>
        rw [head, tail] at fails
        cases fails
        obtain ⟨z, inside, fails⟩ := ih tail
        exact ⟨z, List.mem_cons_of_mem _ inside, fails⟩
      | ok ys => rw [head, tail] at fails; cases fails

/-- Where all results succeed each element has its own … -/
theorem exists_of_mapM_ok {xs : List α} {ys : List β} (done : xs.mapM f = .ok ys) {x : α}
    (inside : x ∈ xs) : ∃ y ∈ ys, f x = .ok y :=
  exists_of_forall₂ (mapM_ok_iff.1 done) inside

/-- … and each result comes from an element. -/
theorem exists_source_of_mapM_ok {xs : List α} {ys : List β} (done : xs.mapM f = .ok ys) {y : β}
    (inside : y ∈ ys) : ∃ x ∈ xs, f x = .ok y :=
  exists_of_forall₂ (mapM_ok_iff.1 done).flip inside

/-- Two ways of working through a list that agree on what came of the first. -/
theorem mapM_ok_of_imp {g : α → Except Failure β} {xs : List α} {ys : List β}
    (done : xs.mapM f = .ok ys) (same : ∀ x ∈ xs, ∀ y ∈ ys, f x = .ok y → g x = .ok y) :
    xs.mapM g = .ok ys := by
  have each := mapM_ok_iff.1 done
  clear done
  induction each with
  | nil => rfl
  | cons head _ ih =>
    refine mapM_cons_ok (same _ List.mem_cons_self _ List.mem_cons_self head) (ih ?_)
    intro x among y inside
    exact same x (List.mem_cons_of_mem _ among) y (List.mem_cons_of_mem _ inside)

end Results

section Tests

variable {α β : Type} {f : α → Except Failure Bool} {g : α → Bool} {xs : List α}

/-- Tests that all answer are plain tests. -/
theorem anyM_ok (each : ∀ x ∈ xs, f x = .ok (g x)) : xs.anyM f = .ok (xs.any g) := by
  induction xs with
  | nil => rfl
  | cons x rest ih =>
    obtain ⟨here, later⟩ := List.forall_mem_cons.1 each
    rw [List.anyM_cons, here, List.any_cons]
    cases g x with
    | true => rfl
    | false => exact ih later

theorem anyM_map (f : β → Except Failure Bool) (h : α → β) (xs : List α) :
    (xs.map h).anyM f = xs.anyM fun x => f (h x) := by
  induction xs with
  | nil => rfl
  | cons x rest ih => rw [List.map_cons, List.anyM_cons, List.anyM_cons, ih]

theorem allM_map (f : β → Except Failure Bool) (h : α → β) (xs : List α) :
    (xs.map h).allM f = xs.allM fun x => f (h x) := by
  induction xs with
  | nil => rfl
  | cons x rest ih => rw [List.map_cons, List.allM_cons, List.allM_cons, ih]

/-- What has been kept so far is held backwards. -/
theorem filterAuxM_ok (each : ∀ x ∈ xs, f x = .ok (g x)) (kept : List α) :
    xs.filterAuxM f kept = .ok ((xs.filter g).reverse ++ kept) := by
  induction xs generalizing kept with
  | nil => rfl
  | cons x rest ih =>
    obtain ⟨here, later⟩ := List.forall_mem_cons.1 each
    rw [List.filterAuxM, here, List.filter_cons]
    refine (ih later _).trans ?_
    cases g x <;> simp

/-- The same for keeping what passes. -/
theorem filterM_ok (each : ∀ x ∈ xs, f x = .ok (g x)) : xs.filterM f = .ok (xs.filter g) := by
  rw [List.filterM, filterAuxM_ok each]
  change Except.ok (((xs.filter g).reverse ++ []).reverse) = _
  rw [List.append_nil, List.reverse_reverse]

theorem allM_singleton (f : α → Except Failure Bool) (x : α) : [x].allM f = f x := by
  rw [List.allM_cons]
  rcases f x with e | _ | _ <;> rfl

/-- A conjunction over two lists is tried over the first, then over the second. -/
theorem allM_append (f : α → Except Failure Bool) (xs ys : List α) :
    (xs ++ ys).allM f = (do if ← xs.allM f then ys.allM f else pure false) := by
  induction xs with
  | nil => rfl
  | cons x rest ih =>
    rw [List.cons_append, List.allM_cons, List.allM_cons, ih]
    cases f x with
    | error e => rfl
    | ok b => cases b <;> rfl

end Tests

/-! ## Tests that may be stuck -/

/-- An item of one kind is come to past items of another. -/
def Reaches {α : Type} (passed here : α → Prop) (xs : List α) : Prop :=
  ∃ before x after, xs = before ++ x :: after ∧ (∀ y ∈ before, passed y) ∧ here x

section Reaching

variable {α : Type} {passed here : α → Prop} {x : α} {xs : List α}

/-- Nothing is reached in an empty list. -/
theorem not_reaches_nil : ¬ Reaches passed here ([] : List α) := by
  rintro ⟨_ | _, _, _, split, _⟩ <;> cases split

/-- The place is the first element, or the first one passes and the place is further on. -/
theorem reaches_cons :
    Reaches passed here (x :: xs) ↔ here x ∨ (passed x ∧ Reaches passed here xs) := by
  constructor
  · rintro ⟨_ | ⟨y, before⟩, z, after, split, pass, found⟩
    · cases split
      exact .inl found
    · cases split
      obtain ⟨first, others⟩ := List.forall_mem_cons.1 pass
      exact .inr ⟨first, before, z, after, rfl, others, found⟩
  · rintro (found | ⟨first, before, z, after, rfl, others, found⟩)
    · exact ⟨[], x, xs, rfl, by simp, found⟩
    · exact ⟨x :: before, z, after, rfl, List.forall_mem_cons.2 ⟨first, others⟩, found⟩

/-- Whatever is reached is an element of the list. -/
theorem Reaches.exists_mem (reaches : Reaches passed here xs) : ∃ x ∈ xs, here x := by
  obtain ⟨before, x, after, rfl, -, found⟩ := reaches
  exact ⟨x, List.mem_append_right _ List.mem_cons_self, found⟩

end Reaching

/-- What a test says: it answers, or it is stuck and fails. -/
inductive Tells (stuck : Prop) (answer : Bool) : Except Failure Bool → Prop
  | answers (free : ¬ stuck) : Tells stuck answer (.ok answer)
  | fails (here : stuck) : Tells stuck answer (.error .valueMisuse)

namespace Tells

variable {α β : Type} {p q : Prop} {a b : Bool} {x y : Except Failure Bool}

/-- A test that answers tells what it answers. -/
theorem of_ok (free : ¬ p) (done : x = .ok a) : Tells p a x := done ▸ .answers free

/-- What is told determines the result. -/
theorem unique (this : Tells p a x) (that : Tells p a y) : x = y := by
  cases this with
  | answers free =>
    cases that with
    | answers _ => rfl
    | fails here => exact absurd here free
  | fails here =>
    cases that with
    | answers free => exact absurd here free
    | fails _ => rfl

theorem congr (tells : Tells p a x) (same : p ↔ q) : Tells q a x := propext same ▸ tells

/-- The second test is made only if the first holds. -/
theorem and (first : Tells p a x) (second : Tells q b y) :
    Tells (p ∨ (a = true ∧ q)) (a && b) (do if ← x then y else pure false) := by
  cases first with
  | fails here => exact .fails (.inl here)
  | answers free =>
    cases a with
    | false => exact .answers (by simp [free])
    | true =>
      have other : q ↔ p ∨ (true = true ∧ q) := by simp [free]
      exact second.congr other

/-- Tests are made until one holds. -/
theorem anyM {stuck : α → Prop} {g : α → Bool} {f : α → Except Failure Bool} {xs : List α}
    (each : ∀ x ∈ xs, Tells (stuck x) (g x) (f x)) :
    Tells (Reaches (g · = false) stuck xs) (xs.any g) (xs.anyM f) := by
  induction xs with
  | nil => exact .answers not_reaches_nil
  | cons x rest ih =>
    obtain ⟨here, later⟩ := List.forall_mem_cons.1 each
    rw [List.anyM_cons, List.any_cons]
    refine congr ?_ reaches_cons.symm
    generalize f x = r at here
    cases here with
    | fails here => exact .fails (.inl here)
    | answers free =>
      cases g x with
      | true => exact .answers (by simp [free])
      | false => exact (ih later).congr (by simp [free])

/-- Tests are made until one does not hold. -/
theorem allM {stuck : β → Prop} {g : β → Bool} {f : α → Except Failure Bool} {xs : List α}
    {ys : List β} (each : List.Forall₂ (fun x y => Tells (stuck y) (g y) (f x)) xs ys) :
    Tells (Reaches (g · = true) stuck ys) (ys.all g) (xs.allM f) := by
  induction each with
  | nil => exact .answers not_reaches_nil
  | @cons x y xs ys here _ ih =>
    rw [List.allM_cons, List.all_cons]
    refine congr ?_ reaches_cons.symm
    generalize f x = r at here
    cases here with
    | fails here => exact .fails (.inl here)
    | answers free =>
      cases g y with
      | false => exact .answers (by simp [free])
      | true => exact ih.congr (by simp [free])

/-- A list is filtered if no test is stuck; otherwise there is no list. -/
theorem filterM {stuck : α → Prop} {g : α → Bool} {f : α → Except Failure Bool} {xs : List α}
    (each : ∀ x ∈ xs, Tells (stuck x) (g x) (f x)) :
    ((∀ x ∈ xs, ¬ stuck x) → xs.filterM f = .ok (xs.filter g)) ∧
      ((∃ x ∈ xs, stuck x) → xs.filterM f = .error .valueMisuse) := by
  constructor
  · intro free
    refine filterM_ok fun x inside => ?_
    exact (each x inside).unique (.answers (free x inside))
  · intro some
    have aux : ∀ kept, xs.filterAuxM f kept = .error .valueMisuse := by
      induction xs with
      | nil => simp at some
      | cons x rest ih =>
        obtain ⟨here, later⟩ := List.forall_mem_cons.1 each
        intro kept
        rw [List.filterAuxM]
        generalize f x = r at here
        cases here with
        | fails _ => rfl
        | answers free =>
          have rest : ∃ y ∈ rest, stuck y := by simpa [free] using some
          exact ih later rest _
    rw [List.filterM, aux]
    rfl

end Tells

end ShapeContract
