/-!
# Tables by handle

Entries under numeric handles, in the order in which the handles first came.
-/

set_option autoImplicit false

namespace ShapeContract

abbrev Table (α : Type) := List (Nat × α)

namespace Table

variable {α : Type}

def get? : Table α → Nat → Option α
  | [], _ => none
  | (h, x) :: rest, handle => if h = handle then some x else get? rest handle

def contains (t : Table α) (handle : Nat) : Bool := (t.get? handle).isSome

def put : Table α → Nat → α → Table α
  | [], handle, x => [(handle, x)]
  | (h, y) :: rest, handle, x => if h = handle then (h, x) :: rest else (h, y) :: put rest handle x

def erase (t : Table α) (handle : Nat) : Table α := t.filter fun e => e.1 ≠ handle

@[simp] theorem get?_put_self (t : Table α) (handle : Nat) (x : α) :
    (t.put handle x).get? handle = some x := by
  induction t with
  | nil => simp [put, get?]
  | cons e rest ih =>
    obtain ⟨h, y⟩ := e
    by_cases hh : h = handle <;> simp [put, get?, hh, ih]

theorem get?_put_of_ne (t : Table α) {handle other : Nat} (x : α) (ne : other ≠ handle) :
    (t.put handle x).get? other = t.get? other := by
  induction t with
  | nil => simp [put, get?, Ne.symm ne]
  | cons e rest ih =>
    obtain ⟨h, y⟩ := e
    by_cases hh : h = handle
    · subst hh; simp [put, get?, Ne.symm ne]
    · simp only [put, hh, if_false, get?, ih]

@[simp] theorem get?_erase_self (t : Table α) (handle : Nat) :
    (t.erase handle).get? handle = none := by
  induction t with
  | nil => rfl
  | cons e rest ih =>
    obtain ⟨h, y⟩ := e
    by_cases hh : h = handle
    · simpa [erase, hh] using ih
    · simpa [erase, hh, get?] using ih

theorem get?_erase_of_ne (t : Table α) {handle other : Nat} (ne : other ≠ handle) :
    (t.erase handle).get? other = t.get? other := by
  induction t with
  | nil => rfl
  | cons e rest ih =>
    obtain ⟨h, y⟩ := e
    by_cases hh : h = handle
    · subst hh; simpa [erase, get?, Ne.symm ne] using ih
    · by_cases ho : h = other
      · subst ho; simp [erase, hh, get?]
      · simpa [erase, hh, get?, ho] using ih

end Table

end ShapeContract
