import ShapeContract.Proofs.Rule.Gathered
import ShapeContract.Proofs.Rule.Lookup

/-!
# Trees up to the order of children

Two trees are the same up to the order of children, at every depth, if their nodes at every place
say the same and have children of the same names: `Rule.reordered_of_samePlaces`.
-/

set_option autoImplicit false

namespace ShapeContract.Rule

mutual

/-- Equal up to the order of children, at every depth. -/
def Reordered : Rule → Rule → Prop
  | ⟨f, items, none⟩, s => s = ⟨f, items, none⟩
  | ⟨f, items, some cs⟩, s =>
    ∃ ds es, s = ⟨f, items, some es⟩ ∧ ds.Perm es ∧ FieldsReordered cs ds

/-- The same names in the same order, with rules that are equal up to the order of children. -/
def FieldsReordered : List (String × Rule) → List (String × Rule) → Prop
  | [], ds => ds = []
  | (name, c) :: rest, ds =>
    ∃ d es, ds = (name, d) :: es ∧ Reordered c d ∧ FieldsReordered rest es

end

/-- Two nodes that say the same, with children of the same names. -/
structure SameNode (n m : Rule) : Prop where
  facets : n.facets = m.facets
  items : n.items = m.items
  childless : n.children = none ↔ m.children = none
  names : ∀ name, name ∈ n.kids.keys ↔ name ∈ m.kids.keys

theorem SameNode.refl (n : Rule) : SameNode n n := ⟨rfl, rfl, Iff.rfl, fun _ => Iff.rfl⟩

/-- Two trees have nodes at the same places, and at each the same node. -/
def SamePlaces (r s : Rule) : Prop :=
  ∀ names, Option.Rel SameNode (r.node? names) (s.node? names)

variable {r s : Rule}

theorem SamePlaces.root (same : SamePlaces r s) : SameNode r s := by
  cases same [] with
  | some node => exact node

theorem SamePlaces.child {c d : Rule} {name : String} (same : SamePlaces r s)
    (here : r.child? name = some c) (there : s.child? name = some d) : SamePlaces c d := by
  intro names
  have below := same (name :: names)
  rwa [node?_cons, node?_cons, here, there] at below

/-- Children of some names, each the same as the one that it stands for. -/
theorem exists_fieldsReordered {cs es : Fields Rule}
    (each : ∀ e ∈ cs, ∃ d, es.get? e.1 = some d ∧ Reordered e.2 d) :
    ∃ ds : Fields Rule, FieldsReordered cs ds ∧ ds.keys = cs.keys ∧ ds ⊆ es := by
  induction cs with
  | nil => exact ⟨[], rfl, rfl, List.nil_subset _⟩
  | cons e rest ih =>
    obtain ⟨name, c⟩ := e
    obtain ⟨⟨d, found, same⟩, others⟩ := List.forall_mem_cons.1 each
    obtain ⟨ds, reordered, keys, known⟩ := ih others
    refine ⟨(name, d) :: ds, ⟨d, ds, rfl, same, reordered⟩, congrArg (name :: ·) keys, ?_⟩
    exact List.cons_subset.2 ⟨Fields.mem_of_get? found, known⟩

/-- **Trees that are the same at every place** are the same up to the order of children. -/
theorem reordered_of_samePlaces (named : r.WellNamed) (named' : s.WellNamed)
    (same : SamePlaces r s) : Reordered r s := by
  induction r using Rule.induct generalizing s with
  | node f items children _ kids =>
    obtain ⟨facets, element, childless, names⟩ := same.root
    obtain ⟨g, items', children'⟩ := s
    obtain rfl : f = g := facets
    obtain rfl : items = items' := element
    cases children with
    | none =>
      obtain rfl : children' = none := childless.1 rfl
      rfl
    | some cs =>
      cases children' with
      | none => cases childless.2 rfl
      | some es =>
        have own := keys_nodup_of_fieldsWellNamed (fieldsWellNamed_kids named)
        have own' := keys_nodup_of_fieldsWellNamed (fieldsWellNamed_kids named')
        have each : ∀ e ∈ cs, ∃ d, Fields.get? es e.1 = some d ∧ Reordered e.2 d := by
          intro e inside
          have here := (Fields.get?_eq_some_iff own e.1 e.2).2 inside
          obtain ⟨d, there⟩ := Fields.exists_get?_of_mem_keys
            ((names e.1).1 (List.mem_map_of_mem inside))
          exact ⟨d, there, kids e inside (wellNamed_child named here) (wellNamed_child named' there)
            (same.child here there)⟩
        obtain ⟨ds, reordered, keys, known⟩ := exists_fieldsReordered each
        refine ⟨ds, es, rfl, ?_, reordered⟩
        have ownDs : ds.keys.Nodup := keys ▸ own
        have renamed : ds.keys.Perm (Fields.keys es) :=
          (List.perm_ext_iff_of_nodup ownDs own').2 fun name => keys ▸ names name
        have long : es.length = ds.length := by
          simpa [Fields.keys] using renamed.length_eq.symm
        exact (List.subperm_of_subset (List.Nodup.of_map _ ownDs) known).perm_of_length_le long.le

end ShapeContract.Rule
