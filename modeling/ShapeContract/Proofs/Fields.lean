import Mathlib.Data.List.Nodup
import ShapeContract.Fields
import ShapeContract.Proofs.Lists

/-!
# Writing to mappings

What a mapping says after a list of entries has been written to it: under names that are not written
what it said before, under names that are written once what is written. A property that entries of
one name share holds of all entries afterwards exactly if it held of all that were there and of all
that are written.
-/

set_option autoImplicit false

namespace ShapeContract.Fields

variable {α : Type}

theorem mem_keys_of_contains {fs : Fields α} {name : String} (inside : fs.contains name) :
    name ∈ fs.keys := by
  obtain ⟨x, member⟩ := contains_iff.1 inside
  exact List.mem_map_of_mem member

theorem exists_get?_of_mem_keys {fs : Fields α} {name : String} (inside : name ∈ fs.keys) :
    ∃ x, fs.get? name = some x := by
  obtain ⟨e, member, rfl⟩ := List.mem_map.1 inside
  exact Option.isSome_iff_exists.1 (contains_iff.2 ⟨e.2, member⟩)

/-- With distinct names, what is found under a name is the entry of that name. -/
theorem get?_eq_some_iff {fs : Fields α} (own : fs.keys.Nodup) (name : String) (x : α) :
    fs.get? name = some x ↔ (name, x) ∈ fs := by
  induction fs with
  | nil => simp
  | cons e rest ih =>
    obtain ⟨k, v⟩ := e
    obtain ⟨fresh, ownRest⟩ := List.nodup_cons.1 own
    have tail := ih ownRest
    by_cases here : k = name
    · subst here
      have gone : (k, x) ∉ rest := fun inside => fresh (List.mem_map.2 ⟨(k, x), inside, rfl⟩)
      simp [gone, eq_comm]
    · simp [here, tail, Ne.symm here]

/-- So the order of entries does not matter to lookups. -/
theorem get?_perm {fs gs : Fields α} (own : fs.keys.Nodup) (moved : fs.Perm gs) (name : String) :
    fs.get? name = gs.get? name := by
  have ownG : gs.keys.Nodup := (moved.map Prod.fst).nodup_iff.1 own
  refine Option.ext fun x => ?_
  rw [get?_eq_some_iff own, get?_eq_some_iff ownG, moved.mem_iff]

/-- Every entry after a write is an old one or the one written. -/
theorem mem_put {fs : Fields α} {name : String} {x : α} {e : String × α} (inside : e ∈ fs.put name x) :
    e ∈ fs ∨ e = (name, x) := by
  induction fs with
  | nil => exact Or.inr (List.mem_singleton.1 inside)
  | cons head rest ih =>
    obtain ⟨k, v⟩ := head
    rw [put] at inside
    split at inside
    next same =>
      rcases List.mem_cons.1 inside with rfl | later
      · exact Or.inr (same ▸ rfl)
      · exact Or.inl (List.mem_cons_of_mem _ later)
    next other =>
      rcases List.mem_cons.1 inside with rfl | later
      · exact Or.inl List.mem_cons_self
      · exact (ih later).imp (List.mem_cons_of_mem _) id

theorem mem_putAll {fs more : Fields α} {e : String × α} (inside : e ∈ fs.putAll more) :
    e ∈ fs ∨ e ∈ more := by
  induction more generalizing fs with
  | nil => exact Or.inl inside
  | cons head rest ih =>
    rcases @ih (fs.put head.1 head.2) inside with before | later
    · rcases mem_put before with old | rfl
      · exact Or.inl old
      · exact Or.inr List.mem_cons_self
    · exact Or.inr (List.mem_cons_of_mem _ later)

theorem mem_ofList {entries : Fields α} {e : String × α} (inside : e ∈ ofList entries) :
    e ∈ entries :=
  (mem_putAll inside).resolve_left List.not_mem_nil

/-- A write keeps names distinct. -/
theorem nodup_keys_put {fs : Fields α} (own : fs.keys.Nodup) (name : String) (x : α) :
    (fs.put name x).keys.Nodup := by
  rw [keys_put]
  split
  next => exact own
  next new =>
    refine List.nodup_append.2 ⟨own, List.pairwise_singleton _ name, ?_⟩
    rintro other inside _ same rfl
    exact new (List.mem_singleton.1 same ▸ inside)

/-- With distinct names nothing else is left under the name written. -/
theorem mem_put_of_nodup {fs : Fields α} (own : fs.keys.Nodup) {name : String} {x : α}
    {e : String × α} (inside : e ∈ fs.put name x) : e = (name, x) ∨ (e ∈ fs ∧ e.1 ≠ name) := by
  by_cases same : e.1 = name
  · left
    obtain ⟨_, y⟩ := e
    subst same
    have found := (get?_eq_some_iff (nodup_keys_put own _ x) _ y).2 inside
    rw [get?_put_self] at found
    rw [Option.some.inj found]
  · rcases mem_put inside with old | rfl
    · exact .inr ⟨old, same⟩
    · exact absurd rfl same

theorem nodup_keys_putAll {fs : Fields α} (own : fs.keys.Nodup) (more : Fields α) :
    (fs.putAll more).keys.Nodup := by
  induction more generalizing fs with
  | nil => exact own
  | cons e rest ih => exact ih (nodup_keys_put own e.1 e.2)

/-- Writing two lists in turn is writing their concatenation. -/
theorem putAll_append (fs more others : Fields α) :
    fs.putAll (more ++ others) = (fs.putAll more).putAll others := List.foldl_append

theorem ofList_append (entries more : Fields α) :
    ofList (entries ++ more) = (ofList entries).putAll more := putAll_append [] entries more

/-- A name that is not written reads as before. -/
theorem get?_putAll_of_notMem (fs : Fields α) {more : Fields α} {name : String}
    (unwritten : name ∉ more.keys) : (fs.putAll more).get? name = fs.get? name := by
  induction more generalizing fs with
  | nil => rfl
  | cons e rest ih =>
    obtain ⟨here, later⟩ := not_or.1 (mt List.mem_cons.2 unwritten)
    exact (ih (fs.put e.1 e.2) later).trans (get?_put_of_ne fs e.2 here)

/-- What is written over two mappings hides where they differ. -/
theorem get?_putAll_congr (fs gs : Fields α) {more : Fields α}
    (same : ∀ name, name ∉ more.keys → fs.get? name = gs.get? name) (name : String) :
    (fs.putAll more).get? name = (gs.putAll more).get? name := by
  induction more generalizing fs gs with
  | nil => exact same name List.not_mem_nil
  | cons e rest ih =>
    obtain ⟨key, x⟩ := e
    refine ih (fs.put key x) (gs.put key x) fun other unwritten => ?_
    by_cases here : other = key
    · rw [here, get?_put_self, get?_put_self]
    · rw [get?_put_of_ne fs x here, get?_put_of_ne gs x here]
      exact same other (by simpa [keys, here] using unwritten)

/-- What is written under names of their own is there afterwards. -/
theorem mem_putAll_of_mem (fs : Fields α) {more : Fields α} (own : more.keys.Nodup)
    {e : String × α} (inside : e ∈ more) : e ∈ fs.putAll more := by
  induction more generalizing fs with
  | nil => cases inside
  | cons d rest ih =>
    obtain ⟨alone, ownRest⟩ := List.nodup_cons.1 own
    rcases List.mem_cons.1 inside with rfl | later
    · refine mem_of_get? ((get?_putAll_of_notMem _ alone).trans ?_)
      exact get?_put_self fs e.1 e.2
    · exact ih (fs.put d.1 d.2) ownRest later

/-- What a mapping has after names of their own are written to it. -/
theorem mem_putAll_iff {fs more : Fields α} {e : String × α} (own : fs.keys.Nodup) (own' : more.keys.Nodup) :
    e ∈ fs.putAll more ↔ (e ∈ fs ∧ e.1 ∉ more.keys) ∨ e ∈ more := by
  constructor
  · intro inside
    by_cases written : e.1 ∈ more.keys
    · obtain ⟨d, among, same⟩ := List.mem_map.1 written
      obtain rfl : d = e := List.inj_on_of_nodup_map (nodup_keys_putAll own more)
        (mem_putAll_of_mem fs own' among) inside same
      exact .inr among
    · exact (mem_putAll inside).imp_left fun old => ⟨old, written⟩
  · rintro (⟨old, unwritten⟩ | new)
    · refine mem_of_get? ((get?_putAll_of_notMem fs unwritten).trans ?_)
      exact (get?_eq_some_iff own e.1 e.2).2 old
    · exact mem_putAll_of_mem fs own' new

/-- Writes keep the order of the names there are and add new ones at the end. -/
theorem exists_keys_putAll (fs more : Fields α) :
    ∃ new, (fs.putAll more).keys = fs.keys ++ new := by
  induction more generalizing fs with
  | nil => exact ⟨[], (List.append_nil _).symm⟩
  | cons d rest ih =>
    obtain ⟨new, later⟩ := ih (fs.put d.1 d.2)
    rw [keys_put] at later
    split at later
    · exact ⟨new, later⟩
    · exact ⟨d.1 :: new, later.trans (List.append_cons ..).symm⟩

/-- New names come after the old ones. -/
theorem old_before_new {fs more : Fields α} (own : fs.keys.Nodup) :
    (fs.putAll more).Pairwise fun e d => d.1 ∈ fs.keys → e.1 ∈ fs.keys := by
  obtain ⟨new, keys⟩ := exists_keys_putAll fs more
  have distinct := nodup_keys_putAll own more
  rw [keys, List.nodup_append] at distinct
  suffices inTurn : (fs.putAll more).keys.Pairwise fun x y => y ∈ fs.keys → x ∈ fs.keys from
    List.pairwise_map.1 inTurn
  rw [keys, List.pairwise_append]
  refine ⟨?_, ?_, fun x old _ _ _ => old⟩
  · exact List.pairwise_of_forall_mem_list fun x old _ _ _ => old
  · refine List.pairwise_of_forall_mem_list fun x _ y fresh old => ?_
    exact absurd rfl (distinct.2.2 y old y fresh)

section Shared

variable {p : String × α → Except Failure Bool}

/-- Entries of one name are told the same by a test. -/
def Shares (p : String × α → Except Failure Bool) (fs : Fields α) : Prop :=
  ∀ e ∈ fs, ∀ d ∈ fs, e.1 = d.1 → p e = p d

/-- Where the entries under a name answer alike, the test of a written field may be made last. -/
theorem allM_put {fs : Fields α} {name : String} {x : α}
    (shares : ∀ y, (name, y) ∈ fs → p (name, y) = p (name, x)) :
    (fs.put name x).allM p = (do if ← fs.allM p then p (name, x) else pure false) := by
  induction fs with
  | nil =>
    rw [put, List.allM_cons]
    cases p (name, x) with
    | error e => rfl
    | ok b => cases b <;> rfl
  | cons e rest ih =>
    obtain ⟨other, y⟩ := e
    rw [put]
    split
    next here =>
      subst here
      rw [List.allM_cons, List.allM_cons, shares y List.mem_cons_self]
      -- If the last entry is come to, it has held before.
      cases p (other, x) with
      | error e => rfl
      | ok b =>
        cases b with
        | false => rfl
        | true =>
          simp only [bind, Except.bind, pure, Except.pure]
          cases rest.allM p with
          | error e => rfl
          | ok b => cases b <;> rfl
    next =>
      rw [List.allM_cons, List.allM_cons,
        ih fun z inside => shares z (List.mem_cons_of_mem _ inside)]
      cases p (other, y) with
      | error e => rfl
      | ok b => cases b <;> rfl

/-- So a test of merged fields is a test of all entries in the order written. -/
theorem allM_putAll {fs more : Fields α} (shares : Shares p (fs ++ more)) :
    (fs.putAll more).allM p = (fs ++ more).allM p := by
  induction more generalizing fs with
  | nil => simp [putAll]
  | cons e rest ih =>
    have kept : Shares p (fs.put e.1 e.2 ++ rest) := by
      have known : ∀ d ∈ fs.put e.1 e.2 ++ rest, d ∈ fs ++ e :: rest := by
        intro d inside
        rcases List.mem_append.1 inside with written | later
        · rcases mem_put written with old | rfl
          · exact List.mem_append_left _ old
          · exact List.mem_append_right _ List.mem_cons_self
        · exact List.mem_append_right _ (List.mem_cons_of_mem _ later)
      exact fun d inside d' inside' => shares d (known d inside) d' (known d' inside')
    have here : ∀ y, (e.1, y) ∈ fs → p (e.1, y) = p e := fun y old =>
      shares _ (List.mem_append_left _ old) e (List.mem_append_right _ List.mem_cons_self) rfl
    refine (ih kept).trans ?_
    rw [allM_append, allM_append, allM_put here, List.allM_cons]
    cases fs.allM p with
    | error e => rfl
    | ok b =>
      cases b with
      | false => rfl
      | true => rfl

/-- Of entries that share a name and what a test says of them one is enough. -/
theorem allM_ofList {entries : Fields α} (shares : Shares p entries) :
    (ofList entries).allM p = entries.allM p := allM_putAll shares

end Shared

end ShapeContract.Fields
