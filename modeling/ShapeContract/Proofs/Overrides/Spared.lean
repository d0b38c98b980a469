import ShapeContract.Proofs.Overrides.Standing
import ShapeContract.Proofs.Rule.Keyed

/-!
# What overrides write to the base tree

A leaf that stays is copied, but its children are not. So a path of the adapted tree that passes a
child of such a leaf, and goes on, is attached below a node of the base tree, unless something else
has been attached in that place since. In all other cases the base tree is the same, node by node:
`Overrides.spares_or_disturbs`.

All this is about definitions whose nodes are new. A definition that is a rule is one of them, since
its record lends nothing: `Rule.isLent_toValue`.
-/

set_option autoImplicit false

namespace ShapeContract

/-! ## Definitions from records -/

namespace Value

theorem fieldsLend_append (fs gs : Fields Value) :
    fieldsLend (fs ++ gs) = (fieldsLend fs || fieldsLend gs) := by
  induction fs with
  | nil => rfl
  | cons e rest ih =>
    obtain ⟨name, v⟩ := e
    rw [List.cons_append, fieldsLend, fieldsLend, ih]
    simp only [Bool.or_assoc]

/-- Only the children of a rule can be lent. -/
theorem fieldsLend_entry {name : String} (other : name ≠ "children") (v : Option Value) :
    fieldsLend (Rule.entry name v) = false := by
  cases v with
  | none => rfl
  | some v => simp [Rule.entry, fieldsLend, other]

theorem anyLent_fieldValues {cs : Fields Rule} (each : ∀ e ∈ cs, e.2.toValue.isLent = false) :
    anyLent (Rule.fieldValues cs) = false := by
  induction cs with
  | nil => rfl
  | cons e rest ih =>
    obtain ⟨first, others⟩ := List.forall_mem_cons.1 each
    rw [Rule.fieldValues, anyLent, first, ih others]
    rfl

end Value

namespace Rule

open Value (fieldsLend childrenLend anyLent anyLent_fieldValues fieldsLend_append fieldsLend_entry)

/-- The record of a rule lends nothing: it is made of mappings all the way down. -/
theorem isLent_toValue (r : Rule) : r.toValue.isLent = false := by
  induction r using Rule.induct with
  | node f items children _ kids =>
    have inChildren : fieldsLend (entry "children" (childrenValue children)) = false := by
      cases children with
      | none => rfl
      | some cs =>
        have none : anyLent (fieldValues cs) = false := anyLent_fieldValues kids
        simp [childrenValue, entry, fieldsLend, childrenLend, none]
    have inType (v : Value) (rest : Fields Value) :
        fieldsLend (("type", v) :: rest) = fieldsLend rest := by simp [fieldsLend]
    rw [toValue, Value.isLent]
    simp [leadingEntries, countEntries, fieldsLend_append, fieldsLend_entry, inType, inChildren]

end Rule

namespace NodeStore

/-! ## Entries that give the same -/

section Relating

variable {α β : Type} {gives : α → String → Prop} {gives' : β → String → Prop}

/-- Entries for one path that give the same names. -/
def GivesSame (gives : α → String → Prop) (gives' : β → String → Prop) (e : String × α)
    (d : String × β) : Prop :=
  e.1 = d.1 ∧ ∀ x, gives e.2 x ↔ gives' d.2 x

theorem GivesSame.symm {es : Fields α} {ds : Fields β}
    (same : List.Forall₂ (GivesSame gives gives') es ds) :
    List.Forall₂ (GivesSame gives' gives) ds es :=
  same.flip.imp fun _ _ both => ⟨both.1.symm, fun x => (both.2 x).symm⟩

theorem Passes.related {done : Fields α} {done' : Fields β} {path : String}
    (same : List.Forall₂ (GivesSame gives gives') done done') (passes : Passes gives done path) :
    Passes gives' done' path := by
  obtain ⟨e, x, y, more, ⟨before, after, rfl, stands⟩, isLent, split⟩ := passes
  obtain ⟨before', d, after', rfl, -, both, later⟩ := forall₂_split same
  refine ⟨d, x, y, more, ⟨before', after', rfl, fun m inside => ?_⟩, (both.2 x).1 isLent, both.1 ▸ split⟩
  obtain ⟨m', there, same'⟩ := exists_of_forall₂ (GivesSame.symm later) inside
  rw [same'.1, ← both.1]
  exact stands m' there

theorem Crosses.related {done entries : Fields α} {done' entries' : Fields β}
    (sameDone : List.Forall₂ (GivesSame gives gives') done done')
    (same : List.Forall₂ (GivesSame gives gives') entries entries')
    (crosses : Crosses gives done entries) : Crosses gives' done' entries' := by
  obtain ⟨before, e, after, rfl, passes⟩ := crosses
  obtain ⟨before', d, after', rfl, others, both, -⟩ := forall₂_split same
  exact ⟨before', d, after', rfl, both.1 ▸ passes.related (List.rel_append sameDone others)⟩

end Relating

end NodeStore

namespace Overrides

open NodeStore

variable {o : Overrides} {base : Rule}

/-- A path of the adapted tree passes a child of a leaf that stays, and goes on. -/
def Disturbs (o : Overrides) (base : Rule) : Prop :=
  Crosses (fun names x => x ∈ names) [] (o.lentNames base)

/-- Every node of the base tree has the same facets, elements and children as before. -/
def Spares (o : Overrides) (base : Rule) : Prop :=
  ∀ k ≤ base.parts, (o.storeAfter base)[k]? = (NodeStore.load [] base).2[k]?

/-- The base tree at the beginning of a store. -/
theorem laid_load (base : Rule) :
    (NodeStore.load [] base).1 = base.parts ∧ Laid (NodeStore.load [] base).2 0 base ∧
      (NodeStore.load [] base).2.length = base.parts + 1 := by
  obtain ⟨s, loaded, length, laid⟩ := load_spec base []
  rw [List.nil_append, List.length_nil] at laid
  rw [loaded, List.nil_append, List.length_nil]
  exact ⟨Nat.zero_add _, laid, length⟩

/-- The tree that the base tree has become is the one at the beginning of the store. -/
theorem applyShared_eq (o : Overrides) (base : Rule) :
    o.applyShared base = (o.storeAfter base).tree base.parts := by
  obtain ⟨root, laid, length⟩ := laid_load base
  have unchanged : (NodeStore.load [] base).2.tree base.parts = base := by
    have all := laid.read_eq ((NodeStore.load [] base).2.length + 1) (by omega)
    rwa [Nat.zero_add] at all
  unfold applyShared storeAfter
  cases o.checkAll with
  | error e => exact unchanged.symm
  | ok _ =>
    cases appendedRules o.appended with
    | error e => exact unchanged.symm
    | ok appended =>
      dsimp only
      rw [root]

/-- What spares the base tree leaves it as it was. -/
theorem Spares.applyShared_eq (spares : o.Spares base) : o.applyShared base = base := by
  obtain ⟨-, laid, length⟩ := laid_load base
  have laid' : Laid (o.storeAfter base) 0 base :=
    laid.congr fun k _ old => spares k (by omega)
  obtain ⟨inside, -⟩ := List.getElem?_eq_some_iff.1 laid'.node
  have all := laid'.read_eq ((o.storeAfter base).length + 1) (by omega)
  rw [Nat.zero_add] at all
  rw [Overrides.applyShared_eq, NodeStore.tree, all]

/-- A new edge is none of the base tree. -/
theorem not_spares_of_written (written : Written base.parts (o.storeAfter base)) :
    ¬o.Spares base := by
  intro spares
  obtain ⟨-, laid, -⟩ := laid_load base
  obtain ⟨k, x, c, old, child, new⟩ := written.edge
  obtain ⟨n, found, edge⟩ := edge_of_child? child
  rw [spares k old] at found
  have within := laid.edges k n (Nat.zero_le k) (by omega) found _ edge
  omega

/-- What fails changes nothing. -/
theorem storeAfter_of_error {e : Failure} (fails : o.apply base = .error e) :
    o.storeAfter base = (NodeStore.load [] base).2 := by
  unfold storeAfter
  cases checks : o.checkAll with
  | error e => rfl
  | ok checked =>
    cases rules : appendedRules o.appended with
    | error e => rfl
    | ok appended =>
      rw [apply, effective, checks, rules] at fails
      cases fails

/-- **Overrides disturb the base tree or spare it.** -/
theorem spares_or_disturbs (o : Overrides) (base : Rule) :
    o.Spares base ↔ ∀ adapted, o.apply base = .ok adapted → ¬o.Disturbs base := by
  cases applied : o.apply base with
  | error e => exact ⟨fun _ _ => nofun, fun _ k _ => by rw [storeAfter_of_error applied]⟩
  | ok adapted =>
    obtain ⟨checked, appended, checks, rules, -⟩ := exists_of_apply applied
    obtain ⟨start, target, copies, u, std, after, before⟩ := o.exists_standing base checks rules
    have same : List.Forall₂ (GivesSame (Standing.lent base u) fun names x => x ∈ names)
        (copies.putAll (fieldsAt start appended)) (o.lentNames base) := std.lentNames rules
    rcases Stage.attachAll_cases _ std.stage std.nodup with ⟨crosses, written⟩ | ⟨clear, unwritten⟩
    · rw [← after] at written
      refine ⟨fun spares => absurd spares (not_spares_of_written written), fun none => ?_⟩
      exact absurd (crosses.related .nil same) (none adapted rfl)
    · rw [← after] at unwritten
      refine ⟨fun _ _ _ disturbs => clear (disturbs.related .nil (GivesSame.symm same)), ?_⟩
      exact fun _ k old => (unwritten k old).trans (before k old)

/-- A text with a child, as paths that overlap leave it. -/
def noteTree : Rule :=
  ⟨Rule.empty.facets, none,
    some [("note", ⟨{ type := .string }, none, some [("meta", Rule.empty)]⟩)]⟩

/-- What is appended below the child is written into the base tree. -/
theorem not_spares_noteTree : ∃ o : Overrides, (∃ adapted, o.apply noteTree = .ok adapted) ∧
    ¬o.Spares noteTree := by
  let o : Overrides := { appended := [("note.meta.size", .object [])] }
  have applies : ∃ adapted, o.apply noteTree = .ok adapted := ⟨_, rfl⟩
  refine ⟨o, applies, fun spares => ?_⟩
  obtain ⟨adapted, applied⟩ := applies
  have names : o.lentNames noteTree = [("note", ["meta"]), ("note.meta.size", [])] := by
    decide +kernel
  refine (o.spares_or_disturbs noteTree).1 spares adapted applied ?_
  rw [Disturbs, names]
  exact ⟨[("note", ["meta"])], ("note.meta.size", []), [], rfl, ("note", ["meta"]), "meta", "size", [],
    ⟨[], [], rfl, nofun⟩, List.mem_singleton_self _, by decide +kernel⟩

/-- A tree whose leaves have no children is spared by all overrides. -/
theorem spares_of_childless (childless : ∀ e ∈ base.flatten "", e.2.kids = []) (o : Overrides) :
    o.Spares base := by
  refine (o.spares_or_disturbs base).2 fun _ _ disturbs => ?_
  obtain ⟨before, e, after, split, d, x, y, more, ⟨first, rest, split', -⟩, isLent, -⟩ := disturbs
  have inside : d ∈ o.lentNames base := by
    rw [split]
    exact List.mem_append_left _ (by rw [← List.nil_append before, split']; simp)
  have none : d.2 = [] := by
    rcases Fields.mem_putAll inside with leaf | appended
    · obtain ⟨l, kept, rfl⟩ := List.mem_map.1 leaf
      rw [childless l (List.mem_of_mem_filter kept)]
      rfl
    · obtain ⟨a, -, rfl⟩ := List.mem_map.1 appended
      rfl
  rw [none] at isLent
  cases isLent

end Overrides

end ShapeContract
