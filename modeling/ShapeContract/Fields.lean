/-!
# Ordered mappings

A mapping from names keeps its entries in the order in which their names first came. Writing to a
known name keeps its place; a new name goes last.
-/

set_option autoImplicit false

namespace ShapeContract

/-- Entries in order; of two entries with one name the first counts. -/
abbrev Fields (α : Type) := List (String × α)

namespace Fields

variable {α β : Type}

def get? : Fields α → String → Option α
  | [], _ => none
  | (k, v) :: rest, name => if k = name then some v else get? rest name

def contains (fs : Fields α) (name : String) : Bool := (fs.get? name).isSome

def keys (fs : Fields α) : List String := fs.map Prod.fst

def put : Fields α → String → α → Fields α
  | [], name, x => [(name, x)]
  | (k, v) :: rest, name, x => if k = name then (k, x) :: rest else (k, v) :: put rest name x

/-- Later entries win over earlier ones, which keep their places. -/
def putAll (fs more : Fields α) : Fields α := more.foldl (fun acc e => acc.put e.1 e.2) fs

def ofList (entries : List (String × α)) : Fields α := putAll [] entries

def erase (fs : Fields α) (name : String) : Fields α := fs.filter (fun e => e.1 ≠ name)

def mapValues (f : α → β) (fs : Fields α) : Fields β := fs.map fun e => (e.1, f e.2)

@[simp] theorem get?_nil (name : String) : get? ([] : Fields α) name = none := rfl

@[simp] theorem get?_cons (k : String) (v : α) (rest : Fields α) (name : String) :
    get? ((k, v) :: rest) name = if k = name then some v else get? rest name := rfl

@[simp] theorem get?_put_self (fs : Fields α) (name : String) (x : α) :
    (fs.put name x).get? name = some x := by
  induction fs with
  | nil => simp [put]
  | cons e rest ih =>
    obtain ⟨k, v⟩ := e
    by_cases h : k = name <;> simp [put, h, ih]

theorem get?_put_of_ne (fs : Fields α) {name other : String} (x : α) (h : other ≠ name) :
    (fs.put name x).get? other = fs.get? other := by
  induction fs with
  | nil => simp [put, Ne.symm h]
  | cons e rest ih =>
    obtain ⟨k, v⟩ := e
    by_cases hk : k = name
    · subst hk; simp [put, Ne.symm h]
    · simp only [put, hk, if_false, get?_cons, ih]

theorem keys_put (fs : Fields α) (name : String) (x : α) :
    (fs.put name x).keys = if name ∈ fs.keys then fs.keys else fs.keys ++ [name] := by
  induction fs with
  | nil => simp [put, keys]
  | cons e rest ih =>
    obtain ⟨k, v⟩ := e
    by_cases hk : k = name
    · subst hk; simp [put, keys]
    · have : (k :: keys rest) = keys ((k, v) :: rest) := rfl
      simp only [put, hk, if_false]
      show k :: keys (put rest name x) = _
      rw [ih, ← this]
      by_cases hm : name ∈ keys rest <;> simp [hm, Ne.symm hk]

@[simp] theorem put_put (fs : Fields α) (name : String) (x y : α) :
    (fs.put name x).put name y = fs.put name y := by
  induction fs with
  | nil => simp [put]
  | cons e rest ih =>
    obtain ⟨k, v⟩ := e
    by_cases hk : k = name <;> simp [put, hk, ih]

theorem put_of_notMem (fs : Fields α) {name : String} (x : α) (fresh : name ∉ fs.keys) :
    fs.put name x = fs ++ [(name, x)] := by
  induction fs with
  | nil => rfl
  | cons e rest ih =>
    obtain ⟨k, v⟩ := e
    simp only [keys, List.map_cons, List.mem_cons, not_or] at fresh
    rw [put, if_neg (Ne.symm fresh.1), ih fresh.2]
    rfl

theorem get?_of_notMem (fs : Fields α) {name : String} (fresh : name ∉ fs.keys) :
    fs.get? name = none := by
  induction fs with
  | nil => rfl
  | cons e rest ih =>
    obtain ⟨k, v⟩ := e
    simp only [keys, List.map_cons, List.mem_cons, not_or] at fresh
    rw [get?_cons, if_neg (Ne.symm fresh.1), ih fresh.2]

theorem mem_of_get? {fs : Fields α} {name : String} {x : α} (found : fs.get? name = some x) :
    (name, x) ∈ fs := by
  induction fs with
  | nil => cases found
  | cons head rest ih =>
    obtain ⟨k, v⟩ := head
    rw [get?_cons] at found
    split at found
    next same =>
      cases found
      exact same ▸ List.mem_cons_self
    next other => exact List.mem_cons_of_mem _ (ih found)

theorem contains_iff {fs : Fields α} {name : String} :
    fs.contains name = true ↔ ∃ x, (name, x) ∈ fs := by
  induction fs with
  | nil => simp [contains]
  | cons e rest ih =>
    obtain ⟨other, x⟩ := e
    unfold contains at ih ⊢
    by_cases here : other = name
    · simp [here]
    · simp [here, Ne.symm here, ih]

/-- Entries with names of their own go to the end, in order. -/
theorem putAll_of_disjoint (fs more : Fields α) (own : more.keys.Nodup)
    (fresh : ∀ name ∈ more.keys, name ∉ fs.keys) : fs.putAll more = fs ++ more := by
  induction more generalizing fs with
  | nil => simp [putAll]
  | cons e rest ih =>
    obtain ⟨name, x⟩ := e
    simp only [keys, List.map_cons, List.nodup_cons] at own
    have new : name ∉ fs.keys := fresh name (by simp [keys])
    have next : ∀ other ∈ keys rest, other ∉ keys (fs ++ [(name, x)]) := by
      intro other member
      have old := fresh other (List.mem_cons_of_mem _ member)
      have different : other ≠ name := fun same => own.1 (same ▸ member)
      simpa [keys, different] using old
    show putAll (fs.put name x) rest = _
    rw [put_of_notMem fs x new, ih _ own.2 next, List.append_assoc]
    rfl

theorem ofList_of_nodup (fs : Fields α) (own : fs.keys.Nodup) : ofList fs = fs :=
  putAll_of_disjoint [] fs own (by simp [keys])

@[simp] theorem mapValues_nil (f : α → β) : mapValues f [] = [] := rfl

@[simp] theorem mapValues_cons (f : α → β) (k : String) (v : α) (rest : Fields α) :
    mapValues f ((k, v) :: rest) = (k, f v) :: mapValues f rest := rfl

@[simp] theorem mapValues_append (f : α → β) (fs gs : Fields α) :
    mapValues f (fs ++ gs) = mapValues f fs ++ mapValues f gs := List.map_append

@[simp] theorem keys_mapValues (f : α → β) (fs : Fields α) : (mapValues f fs).keys = fs.keys :=
  List.map_map

theorem get?_mapValues (f : α → β) (fs : Fields α) (name : String) :
    (mapValues f fs).get? name = (fs.get? name).map f := by
  induction fs with
  | nil => rfl
  | cons e rest ih =>
    obtain ⟨k, v⟩ := e
    by_cases here : k = name
    · simp [here]
    · simp [here, ih]

theorem put_mapValues (f : α → β) (fs : Fields α) (name : String) (x : α) :
    (mapValues f fs).put name (f x) = mapValues f (fs.put name x) := by
  induction fs with
  | nil => rfl
  | cons e rest ih =>
    obtain ⟨k, v⟩ := e
    by_cases here : k = name
    · simp [put, here]
    · simp [put, here, ih]

theorem putAll_mapValues (f : α → β) (fs more : Fields α) :
    (mapValues f fs).putAll (mapValues f more) = mapValues f (fs.putAll more) := by
  induction more generalizing fs with
  | nil => rfl
  | cons e rest ih =>
    obtain ⟨k, v⟩ := e
    have step := ih (fs.put k v)
    rw [← put_mapValues] at step
    exact step

theorem ofList_mapValues (f : α → β) (entries : Fields α) :
    ofList (mapValues f entries) = mapValues f (ofList entries) := putAll_mapValues f [] entries

end Fields

end ShapeContract
