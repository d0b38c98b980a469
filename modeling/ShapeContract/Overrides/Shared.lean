import ShapeContract.Overrides.Apply

/-!
# Overrides on shared nodes

The adapted tree copies the leaves of the base tree but shares the nodes below them, and attaching
writes in place. Here a tree is kept in a store of numbered nodes, so that it can be said what a run
of the overrides does to the base tree.

Definitions are values, and every rule read from one has nodes of its own. For a definition that is a
rule this is how it is read: from its record. A rule inside a mapping, however, is taken as the object
that it is. Below a child attaching may then write to the caller's rule, or to a node of the base tree
that the caller has put there. `Overrides.owned` says that no definition has a rule for a child.
-/

set_option autoImplicit false

namespace ShapeContract

/-- A node whose element rule and children are other nodes of the store. -/
structure StoredNode where
  facets : Facets
  items : Option Nat
  children : Option (List (String × Nat))

/-- Nodes by number, in order of allocation. -/
abbrev NodeStore := List StoredNode

mutual

/-- Whether a child of a definition is a rule, or a mapping that has one as a child. -/
def Value.isLent : Value → Bool
  | .rule _ => true
  | .object fs => fieldsLend fs
  | _ => false

/-- Whether a child of a definition is lent. Elements do not count: paths lead through children, so
nothing is attached below an element. -/
def Value.fieldsLend : List (String × Value) → Bool
  | [] => false
  | (name, v) :: rest => (name = "children" && v.childrenLend) || fieldsLend rest

def Value.childrenLend : Value → Bool
  | .object cs => anyLent cs
  | _ => false

def Value.anyLent : List (String × Value) → Bool
  | [] => false
  | (_, v) :: rest => v.isLent || anyLent rest

end

/-- Whether no appended mapping has a rule for a child, which would be taken as it is. -/
def Overrides.owned (o : Overrides) : Bool :=
  o.appended.all fun e =>
    match e.2 with
    | .object fs => !Value.fieldsLend fs
    | _ => true

namespace NodeStore

def alloc (s : NodeStore) (n : StoredNode) : Nat × NodeStore := (s.length, s ++ [n])

mutual

/-- Stores a tree, parts first, every part in a node of its own. -/
def load (s : NodeStore) : Rule → Nat × NodeStore
  | ⟨f, items, children⟩ =>
    let (i, s) := loadItems s items
    let (cs, s) := loadChildren s children
    alloc s ⟨f, i, cs⟩

def loadItems (s : NodeStore) : Option Rule → Option Nat × NodeStore
  | none => (none, s)
  | some r =>
    let (i, s) := load s r
    (some i, s)

def loadChildren (s : NodeStore) : Option (List (String × Rule)) →
    Option (List (String × Nat)) × NodeStore
  | none => (none, s)
  | some cs =>
    let (ids, s) := loadFields s cs
    (some ids, s)

def loadFields (s : NodeStore) : List (String × Rule) → List (String × Nat) × NodeStore
  | [] => ([], s)
  | (name, r) :: rest =>
    let (i, s) := load s r
    let (ids, s) := loadFields s rest
    ((name, i) :: ids, s)

end

/-- The tree below a node, to a depth. -/
def read (s : NodeStore) : Nat → Nat → Rule
  | 0, _ => Rule.empty
  | depth + 1, i =>
    match s[i]? with
    | none => Rule.empty
    | some n =>
      ⟨n.facets, n.items.map (read s depth),
        n.children.map fun cs => cs.map fun e => (e.1, read s depth e.2)⟩

/-- The tree below a node of a store without cycles. -/
def tree (s : NodeStore) (i : Nat) : Rule := s.read (s.length + 1) i

def putChild (s : NodeStore) (i : Nat) (name : String) (c : Nat) : NodeStore :=
  s.modify i fun n => ⟨n.facets, n.items, some (Fields.put (n.children.getD []) name c)⟩

def child? (s : NodeStore) (i : Nat) (name : String) : Option Nat :=
  s[i]?.bind fun n => Fields.get? (n.children.getD []) name

/-- Attaches a node below a first segment and further ones, writing in place. -/
def attachAt (s : NodeStore) (i : Nat) (first : String) : List String → Nat → NodeStore
  | [], rule => s.putChild i first rule
  | next :: rest, rule =>
    match s.child? i first with
    | some c => attachAt s c next rest rule
    | none =>
      let (c, s) := alloc s ⟨Rule.empty.facets, none, some []⟩
      attachAt (s.putChild i first c) c next rest rule

def attach (s : NodeStore) (root : Nat) (path : String) (rule : Nat) : NodeStore :=
  match segments path with
  | [] => s
  | first :: rest => s.attachAt root first rest rule

/-- The leaves below a node, as nodes by path. -/
def leavesFrom (s : NodeStore) : Nat → String → Nat → Fields Nat
  | 0, _, _ => []
  | depth + 1, path, i =>
    match s[i]? with
    | none => []
    | some n =>
      (n.children.getD []).flatMap fun e =>
        let p := extendPath path e.1
        match s[e.2]? with
        | some c =>
          if c.facets.type = .object ∧ c.children.getD [] ≠ [] then leavesFrom s depth p e.2
          else [(p, e.2)]
        | none => []

def leaves (s : NodeStore) (root : Nat) : Fields Nat :=
  Fields.ofList (s.leavesFrom (s.length + 1) "" root)

end NodeStore

namespace Overrides

/-- Copies a leaf node with its requirement adjusted; its children stay the same nodes. -/
def copyLeaf (o : Overrides) (s : NodeStore) (path : String) (i : Nat) : Nat × NodeStore :=
  match s[i]? with
  | none => (i, s)
  | some n =>
    let adjusted := o.adjust path ⟨n.facets, none, none⟩
    s.alloc ⟨adjusted.facets, n.items, n.children⟩

/-- The base tree after the overrides have been applied to it; what fails changes nothing. Appended
rules are loaded into new nodes, rules inside mappings too. -/
def applyShared (o : Overrides) (base : Rule) : Rule :=
  match o.checkAll, appendedRules o.appended with
  | .ok _, .ok appended =>
    let (root, s) := NodeStore.load [] base
    let kept := (s.leaves root).filter fun e => o.keeps e.1
    let (copies, s) := kept.foldl (fun (acc : Fields Nat × NodeStore) e =>
      let (i, s) := o.copyLeaf acc.2 e.1 e.2
      (acc.1 ++ [(e.1, i)], s)) ([], s)
    let (added, s) := NodeStore.loadFields s appended
    let (target, s) := s.alloc ⟨Rule.empty.facets, none, some []⟩
    let s := (Fields.putAll copies added).foldl (fun s e => s.attach target e.1 e.2) s
    s.tree root
  | _, _ => base

end Overrides

end ShapeContract
