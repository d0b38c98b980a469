import Mathlib.Data.List.Basic
import ShapeContract.Overrides.Shared

/-!
# Trees in a store of nodes

A stored tree takes up an interval: first its element rule, then its children in order, then the
node itself. So a node has edges into its own interval only, and what is written outside of an
interval does not change the tree that is read from it.
-/

set_option autoImplicit false

namespace ShapeContract

namespace Rule

mutual

/-- The number of nodes below the root. -/
def parts : Rule → Nat
  | ⟨_, items, children⟩ => partsOfItems items + partsOfChildren children

def partsOfItems : Option Rule → Nat
  | none => 0
  | some r => parts r + 1

def partsOfChildren : Option (List (String × Rule)) → Nat
  | none => 0
  | some cs => partsOfFields cs

def partsOfFields : List (String × Rule) → Nat
  | [] => 0
  | (_, r) :: rest => parts r + 1 + partsOfFields rest

end

end Rule

namespace NodeStore

/-- The numbers of children that are stored one after another. -/
def fieldsAt (start : Nat) : List (String × Rule) → List (String × Nat)
  | [] => []
  | (name, r) :: rest => (name, start + r.parts) :: fieldsAt (start + r.parts + 1) rest

mutual

/-- A tree stands in the store from a place on. -/
def Laid (s : NodeStore) (start : Nat) : Rule → Prop
  | ⟨f, items, children⟩ =>
    LaidItems s start items ∧ LaidChildren s (start + Rule.partsOfItems items) children ∧
      s[start + (Rule.partsOfItems items + Rule.partsOfChildren children)]? =
        some ⟨f, items.map fun r => start + r.parts,
          children.map (fieldsAt (start + Rule.partsOfItems items))⟩

def LaidItems (s : NodeStore) (start : Nat) : Option Rule → Prop
  | none => True
  | some r => Laid s start r

def LaidChildren (s : NodeStore) (start : Nat) : Option (List (String × Rule)) → Prop
  | none => True
  | some cs => LaidFields s start cs

def LaidFields (s : NodeStore) (start : Nat) : List (String × Rule) → Prop
  | [] => True
  | (_, r) :: rest => Laid s start r ∧ LaidFields s (start + r.parts + 1) rest

end

mutual

/-- A stored tree depends on its interval only. -/
theorem Laid.congr {s t : NodeStore} {start : Nat} : ∀ {r : Rule}, Laid s start r →
    (∀ k, start ≤ k → k ≤ start + r.parts → t[k]? = s[k]?) → Laid t start r
  | ⟨f, items, children⟩, laid, same => by
    obtain ⟨first, second, node⟩ := laid
    simp only [Rule.parts] at same
    refine ⟨first.congr fun k low high => same k low (by omega),
      second.congr fun k low high => same k (by omega) (by omega), ?_⟩
    rw [same _ (by omega) (by omega)]
    exact node

/-- A stored element reads only its own stretch of the store … -/
theorem LaidItems.congr {s t : NodeStore} {start : Nat} : ∀ {items : Option Rule},
    LaidItems s start items →
    (∀ k, start ≤ k → k < start + Rule.partsOfItems items → t[k]? = s[k]?) → LaidItems t start items
  | none, _, _ => trivial
  | some _, laid, same =>
    Laid.congr laid fun k low high => same k low (by simp only [Rule.partsOfItems]; omega)

/-- The same for the children of a node … -/
theorem LaidChildren.congr {s t : NodeStore} {start : Nat} :
    ∀ {children : Option (List (String × Rule))}, LaidChildren s start children →
    (∀ k, start ≤ k → k < start + Rule.partsOfChildren children → t[k]? = s[k]?) →
    LaidChildren t start children
  | none, _, _ => trivial
  | some _, laid, same => LaidFields.congr laid same

/-- … and for a list of fields. -/
theorem LaidFields.congr {s t : NodeStore} {start : Nat} : ∀ {cs : List (String × Rule)},
    LaidFields s start cs →
    (∀ k, start ≤ k → k < start + Rule.partsOfFields cs → t[k]? = s[k]?) → LaidFields t start cs
  | [], _, _ => trivial
  | (_, r) :: rest, laid, same => by
    simp only [Rule.partsOfFields] at same
    exact ⟨laid.1.congr fun k low high => same k low (by omega),
      laid.2.congr fun k low high => same k (by omega) (by omega)⟩

end

/-- Growing the store moves no node. -/
theorem getElem?_append_of_some {s : NodeStore} (more : NodeStore) {k : Nat} {n : StoredNode}
    (found : s[k]? = some n) : (s ++ more)[k]? = some n := by
  obtain ⟨inside, _⟩ := List.getElem?_eq_some_iff.1 found
  rw [List.getElem?_append_left inside, found]

mutual

/-- A stored rule stays stored as the store grows, with all its parts. -/
theorem Laid.append {s : NodeStore} (more : NodeStore) {start : Nat} : ∀ {r : Rule},
    Laid s start r → Laid (s ++ more) start r
  | ⟨_, _, _⟩, laid =>
    ⟨laid.1.append more, laid.2.1.append more, getElem?_append_of_some more laid.2.2⟩

theorem LaidItems.append {s : NodeStore} (more : NodeStore) {start : Nat} :
    ∀ {items : Option Rule}, LaidItems s start items → LaidItems (s ++ more) start items
  | none, _ => trivial
  | some _, laid => Laid.append more laid

theorem LaidChildren.append {s : NodeStore} (more : NodeStore) {start : Nat} :
    ∀ {children : Option (List (String × Rule))}, LaidChildren s start children →
    LaidChildren (s ++ more) start children
  | none, _ => trivial
  | some _, laid => LaidFields.append more laid

theorem LaidFields.append {s : NodeStore} (more : NodeStore) {start : Nat} :
    ∀ {cs : List (String × Rule)}, LaidFields s start cs → LaidFields (s ++ more) start cs
  | [], _ => trivial
  | (_, _) :: _, laid => ⟨laid.1.append more, laid.2.append more⟩

end

mutual

/-- Storing a tree takes up an interval at the end of the store. -/
theorem load_spec : ∀ (r : Rule) (s : NodeStore), ∃ more,
    load s r = (s.length + r.parts, s ++ more) ∧ more.length = r.parts + 1 ∧
      Laid (s ++ more) s.length r
  | ⟨f, items, children⟩, s => by
    obtain ⟨first, loadedI, lengthI, laidI⟩ := loadItems_spec items s
    obtain ⟨second, loadedC, lengthC, laidC⟩ := loadChildren_spec children (s ++ first)
    have start : (s ++ first).length = s.length + Rule.partsOfItems items := by
      rw [List.length_append, lengthI]
    have place : (s ++ first ++ second).length =
        s.length + (Rule.partsOfItems items + Rule.partsOfChildren children) := by
      rw [List.length_append, start, lengthC, Nat.add_assoc]
    rw [start] at loadedC laidC
    let node : StoredNode := ⟨f, items.map fun r => s.length + r.parts,
      children.map (fieldsAt (s.length + Rule.partsOfItems items))⟩
    have shape : s ++ (first ++ second ++ [node]) = s ++ first ++ second ++ [node] := by
      simp only [List.append_assoc]
    refine ⟨first ++ second ++ [node], ?_, ?_, ?_⟩
    · simp only [load, loadedI, loadedC, alloc, Rule.parts]
      rw [place, shape]
    · simp only [List.length_append, lengthI, lengthC, List.length_singleton, Rule.parts]
    · rw [shape]
      refine ⟨?_, laidC.append [node], ?_⟩
      · rw [List.append_assoc]
        exact laidI.append _
      · rw [← place]
        exact List.getElem?_concat_length

/-- Loading the element of an array, if there is one. -/
theorem loadItems_spec : ∀ (items : Option Rule) (s : NodeStore), ∃ more,
    loadItems s items = (items.map fun r => s.length + r.parts, s ++ more) ∧
      more.length = Rule.partsOfItems items ∧ LaidItems (s ++ more) s.length items
  | none, s => ⟨[], by simp [loadItems], rfl, trivial⟩
  | some r, s => by
    obtain ⟨more, loaded, length, laid⟩ := load_spec r s
    refine ⟨more, ?_, length, laid⟩
    simp only [loadItems, loaded, Option.map_some]

/-- Loading the children of an object, if it has any list of them. -/
theorem loadChildren_spec : ∀ (children : Option (List (String × Rule))) (s : NodeStore), ∃ more,
    loadChildren s children = (children.map (fieldsAt s.length), s ++ more) ∧
      more.length = Rule.partsOfChildren children ∧ LaidChildren (s ++ more) s.length children
  | none, s => ⟨[], by simp [loadChildren], rfl, trivial⟩
  | some cs, s => by
    obtain ⟨more, loaded, length, laid⟩ := loadFields_spec cs s
    refine ⟨more, ?_, length, laid⟩
    simp only [loadChildren, loaded, Option.map_some]

/-- Loading fields one after another, each at the place the layout gives it. -/
theorem loadFields_spec : ∀ (cs : List (String × Rule)) (s : NodeStore), ∃ more,
    loadFields s cs = (fieldsAt s.length cs, s ++ more) ∧
      more.length = Rule.partsOfFields cs ∧ LaidFields (s ++ more) s.length cs
  | [], s => ⟨[], by simp [loadFields, fieldsAt], rfl, trivial⟩
  | (name, r) :: rest, s => by
    obtain ⟨first, loaded, length, laid⟩ := load_spec r s
    obtain ⟨second, loadedR, lengthR, laidR⟩ := loadFields_spec rest (s ++ first)
    have start : (s ++ first).length = s.length + r.parts + 1 := by
      rw [List.length_append, length, Nat.add_assoc]
    rw [start] at loadedR laidR
    refine ⟨first ++ second, ?_, ?_, ?_⟩
    · simp only [loadFields, loaded, loadedR, fieldsAt, List.append_assoc]
    · simp only [List.length_append, length, lengthR, Rule.partsOfFields]
    · rw [← List.append_assoc]
      exact ⟨laid.append second, laidR⟩

end

/-! Edges stay inside of the interval. -/

/-- The roots of fields lie within the stretch of all of them. -/
theorem fieldsAt_within {start : Nat} {cs : List (String × Rule)} :
    ∀ e ∈ fieldsAt start cs, start ≤ e.2 ∧ e.2 < start + Rule.partsOfFields cs := by
  induction cs generalizing start with
  | nil => intro e inside; cases inside
  | cons head rest ih =>
    obtain ⟨name, r⟩ := head
    intro e inside
    simp only [Rule.partsOfFields]
    rcases List.mem_cons.1 inside with rfl | later
    · constructor
      · exact Nat.le_add_right _ _
      · show start + r.parts < _
        omega
    · obtain ⟨low, high⟩ := ih e later
      constructor <;> omega

mutual

/-- The children of a stored rule's nodes are its own nodes: no stored tree leads out of its
stretch. -/
theorem Laid.edges {s : NodeStore} {start : Nat} : ∀ {r : Rule}, Laid s start r →
    ∀ k n, start ≤ k → k ≤ start + r.parts → s[k]? = some n →
      ∀ e ∈ n.children.getD [], start ≤ e.2 ∧ e.2 ≤ start + r.parts
  | ⟨f, items, children⟩, laid, k, n, low, high, found => by
    simp only [Rule.parts] at high ⊢
    intro e inside
    by_cases inItems : k < start + Rule.partsOfItems items
    · have within := laid.1.edges k n low inItems found e inside
      omega
    · by_cases inChildren : k < start + Rule.partsOfItems items + Rule.partsOfChildren children
      · have within := laid.2.1.edges k n (by omega) inChildren found e inside
        omega
      · have place : k = start + (Rule.partsOfItems items + Rule.partsOfChildren children) := by omega
        rw [place, laid.2.2] at found
        cases found
        cases children with
        | none => cases inside
        | some cs =>
          have within := fieldsAt_within e inside
          simp only [Rule.partsOfChildren]
          omega

theorem LaidItems.edges {s : NodeStore} {start : Nat} : ∀ {items : Option Rule},
    LaidItems s start items →
    ∀ k n, start ≤ k → k < start + Rule.partsOfItems items → s[k]? = some n →
      ∀ e ∈ n.children.getD [], start ≤ e.2 ∧ e.2 < start + Rule.partsOfItems items
  | none, _, k, n, low, high, _ => by
    simp only [Rule.partsOfItems] at high
    omega
  | some r, laid, k, n, low, high, found => by
    simp only [Rule.partsOfItems] at high ⊢
    intro e inside
    have within := Laid.edges laid k n low (by omega) found e inside
    omega

theorem LaidChildren.edges {s : NodeStore} {start : Nat} :
    ∀ {children : Option (List (String × Rule))}, LaidChildren s start children →
    ∀ k n, start ≤ k → k < start + Rule.partsOfChildren children → s[k]? = some n →
      ∀ e ∈ n.children.getD [], start ≤ e.2 ∧ e.2 < start + Rule.partsOfChildren children
  | none, _, k, n, low, high, _ => by
    simp only [Rule.partsOfChildren] at high
    omega
  | some _, laid, k, n, low, high, found => LaidFields.edges laid k n low high found

theorem LaidFields.edges {s : NodeStore} {start : Nat} : ∀ {cs : List (String × Rule)},
    LaidFields s start cs →
    ∀ k n, start ≤ k → k < start + Rule.partsOfFields cs → s[k]? = some n →
      ∀ e ∈ n.children.getD [], start ≤ e.2 ∧ e.2 < start + Rule.partsOfFields cs
  | [], _, k, n, low, high, _ => by
    simp only [Rule.partsOfFields] at high
    omega
  | (_, r) :: rest, laid, k, n, low, high, found => by
    simp only [Rule.partsOfFields] at high ⊢
    intro e inside
    by_cases first : k ≤ start + r.parts
    · have within := laid.1.edges k n low first found e inside
      omega
    · have within := laid.2.edges k n (by omega) (by omega) found e inside
      omega

end

/-! Reading deep enough gives the tree. -/

mutual

/-- Reading a stored rule back gives the rule, at any depth that reaches its leaves. -/
theorem Laid.read_eq {s : NodeStore} {start : Nat} : ∀ {r : Rule}, Laid s start r →
    ∀ depth, r.parts < depth → s.read depth (start + r.parts) = r
  | ⟨f, items, children⟩, laid, 0, deep => absurd deep (Nat.not_lt_zero _)
  | ⟨f, items, children⟩, laid, depth + 1, deep => by
    simp only [Rule.parts] at deep ⊢
    have first := laid.1.read_eq depth (by omega)
    have second := laid.2.1.read_eq depth (by omega)
    simp only [read, laid.2.2, first, second]

theorem LaidItems.read_eq {s : NodeStore} {start : Nat} : ∀ {items : Option Rule},
    LaidItems s start items → ∀ depth, Rule.partsOfItems items ≤ depth →
      (items.map fun r => start + r.parts).map (s.read depth) = items
  | none, _, _, _ => rfl
  | some _, laid, depth, deep => congrArg some (Laid.read_eq laid depth deep)

theorem LaidChildren.read_eq {s : NodeStore} {start : Nat} :
    ∀ {children : Option (List (String × Rule))}, LaidChildren s start children →
    ∀ depth, Rule.partsOfChildren children ≤ depth →
      (children.map (fieldsAt start)).map
        (fun cs => cs.map fun e => (e.1, s.read depth e.2)) = children
  | none, _, _, _ => rfl
  | some _, laid, depth, deep => congrArg some (LaidFields.read_eq laid depth deep)

/-- Reading stored fields back gives the fields. -/
theorem LaidFields.read_eq {s : NodeStore} {start : Nat} : ∀ {cs : List (String × Rule)},
    LaidFields s start cs → ∀ depth, Rule.partsOfFields cs ≤ depth →
      ((fieldsAt start cs).map fun e => (e.1, s.read depth e.2)) = cs
  | [], _, _, _ => rfl
  | (name, r) :: rest, laid, depth, deep => by
    simp only [Rule.partsOfFields] at deep
    rw [fieldsAt, List.map_cons, laid.1.read_eq depth (by omega),
      laid.2.read_eq depth (by omega)]

end

end NodeStore

end ShapeContract
