import Mathlib.Logic.Function.Basic
import ShapeContract.Proofs.Registry.Lookups

/-!
# Addresses that are used again

A registry knows a schema by its address, and what has come to its end leaves its address to the
next object. `Memory` is a program at work on a registry, with the objects that are alive, those
that it holds, and the finalizers that have neither run nor been detached. `Shelf` is what has been
kept for one object, whatever its address; no step looks at it. Whatever steps have been taken, a
lookup answers with what is on the shelf of the very object: `Memory.Reachable.never_stale`.
-/

set_option autoImplicit false

namespace ShapeContract

/-- A schema object. The serial number tells it from every other one, also from those that have
lived at its address before. -/
structure Object where
  serial : Nat
  subject : Subject

/-- The address is the handle under which registries know the object. -/
abbrev Object.address (o : Object) : Nat := o.subject.handle

/-- A callback for the end of an object: what is under a handle is to be dropped. -/
structure Finalizer where
  id : Nat
  serial : Nat
  handle : Nat

/-- What has been kept for an object since it was last evicted. -/
structure Shelf where
  tree : Option (Stored Rule) := none
  bucket : Bucket := {}

/-- What a lookup leaves on the shelf: the tree that is there, or the one that is built. -/
def Shelf.stock (shelf : Shelf) (id : Nat) (built : Except Failure Rule) : Shelf :=
  { shelf with tree := shelf.tree.or (built.toOption.map (⟨id, ·⟩)) }

structure Memory where
  live : List Object := []
  /-- The objects that the program has not dropped. -/
  held : List Nat := []
  /-- The finalizers that will run. -/
  armed : List Finalizer := []
  registry : Registry := {}
  /-- The finalizers that the registry has for what it watches, by handle. -/
  finalizers : Table Finalizer := []
  /-- The objects that the registry pins, by handle. -/
  pins : Table Nat := []
  shelves : Nat → Shelf := fun _ => {}
  /-- How many objects and finalizers have been made. -/
  made : Nat := 0

namespace Memory

variable {m m' : Memory} {o : Object}

/-! ## Steps -/

/-- A new object at an address. -/
def allocate (m : Memory) (s : Subject) : Memory :=
  { m with
    live := ⟨m.made, s⟩ :: m.live, held := m.made :: m.held, made := m.made + 1 }

def drop (m : Memory) (o : Object) : Memory := { m with held := m.held.filter (· ≠ o.serial) }

/-- What a finalizer does. -/
def release (m : Memory) (handle : Nat) : Memory :=
  { m with
    registry := m.registry.forget handle
    finalizers := m.finalizers.erase handle
    pins := m.pins.erase handle }

/-- The end of an object: its finalizers run, then its address is free. -/
def collect (m : Memory) (o : Object) : Memory :=
  let own := m.armed.filter fun f => f.serial = o.serial
  let ended := own.foldl (fun m f => m.release f.handle) m
  { ended with
    live := m.live.filter fun p => p.serial ≠ o.serial
    armed := m.armed.filter fun f => f.serial ≠ o.serial }

/-- What registering an object adds beside the registry: a finalizer if its end can be noticed, a
pin otherwise. -/
def enrol (m : Memory) (o : Object) : Memory :=
  if m.registry.registered o.address then m
  else if o.subject.watchable then
    let f : Finalizer := ⟨m.made, o.serial, o.address⟩
    { m with
      armed := f :: m.armed, finalizers := m.finalizers.put o.address f, made := m.made + 1 }
  else { m with pins := m.pins.put o.address o.serial }

/-- The object gets a finalizer, and its address is watched. -/
def arm (m : Memory) (o : Object) : Memory :=
  let f : Finalizer := ⟨m.made, o.serial, o.address⟩
  { m with
    armed := f :: m.armed, finalizers := m.finalizers.put o.address f, made := m.made + 1
    registry := { m.registry with watched := m.registry.watched ++ [o.address] } }

/-- The object is kept alive by the registry. -/
def pin (m : Memory) (o : Object) : Memory :=
  { m with
    pins := m.pins.put o.address o.serial
    registry := { m.registry with pinned := m.registry.pinned.put o.address o.subject.value } }

def onShelf (m : Memory) (o : Object) (f : Shelf → Shelf) : Memory :=
  { m with shelves := Function.update m.shelves o.serial (f (m.shelves o.serial)) }

/-- A computation on the registry. -/
def run {α : Type} (m : Memory) (x : RegistryM α) : Memory :=
  { m with registry := (x.run ⟨m.registry, []⟩).2.registry }

/-- The tree of a schema is looked up, with some way to build it. -/
def treeOf (m : Memory) (o : Option Object) (build : Value → Traced Rule) : Memory :=
  let looked := m.run (RegistryM.treeOf (o.map Object.subject) build)
  match o with
  | none => looked
  | some o =>
    { (m.enrol o).onShelf o (·.stock m.registry.nextId (build o.subject.value).outcome) with
      registry := looked.registry }

/-- The bucket of a schema is looked up, and changed in any way. -/
def changeBucket (m : Memory) (o : Option Object) (f : Bucket → Bucket) : Memory :=
  let s := o.map Object.subject
  let looked := m.run (RegistryM.bucketOf s >>= fun _ => RegistryM.changeBucket s f)
  match o with
  | none => looked
  | some o =>
    { (m.enrol o).onShelf o (fun shelf => { shelf with bucket := f shelf.bucket }) with
      registry := looked.registry }

/-- The finalizers that stay armed when the one under a handle is detached. -/
def detached (m : Memory) (handle : Nat) : List Finalizer :=
  match m.finalizers.get? handle with
  | some f => m.armed.filter fun g => g.id ≠ f.id
  | none => m.armed

/-- Everything kept for a schema is dropped, its finalizer detached. -/
def evict (m : Memory) : Option Object → Memory
  | none => { m with registry := m.registry.evict none }
  | some o =>
    let dropped : Memory := { m with
      armed := m.detached o.address
      registry := m.registry.evict (some o.subject)
      finalizers := m.finalizers.erase o.address
      pins := m.pins.erase o.address }
    dropped.onShelf o fun _ => {}

def clear (m : Memory) : Memory :=
  { m with
    armed := m.armed.filter fun g => (m.finalizers.map Prod.snd).all fun f => g.id ≠ f.id
    registry := m.registry.clear
    finalizers := []
    pins := []
    shelves := fun _ => {} }

/-- The program may use what it holds, and do without a schema. -/
def Holds (m : Memory) : Option Object → Prop
  | none => True
  | some o => o ∈ m.live ∧ o.serial ∈ m.held

/-- An object that nothing holds: it may come to its end. -/
structure Garbage (m : Memory) (o : Object) : Prop where
  live : o ∈ m.live
  dropped : o.serial ∉ m.held
  unpinned : ∀ handle, m.pins.get? handle ≠ some o.serial

/-- One step of the program or of the collector. Steps are not interrupted: the way to build a tree
does not itself turn to the registry. -/
inductive Step : Memory → Memory → Prop where
  | allocate {m : Memory} (s : Subject) (free : ∀ o ∈ m.live, o.address ≠ s.handle) :
      Step m (m.allocate s)
  | drop {m : Memory} (o : Object) : Step m (m.drop o)
  | collect {m : Memory} {o : Object} (garbage : m.Garbage o) : Step m (m.collect o)
  | treeOf {m : Memory} {o : Option Object} (holds : m.Holds o) (build : Value → Traced Rule) :
      Step m (m.treeOf o build)
  | changeBucket {m : Memory} {o : Option Object} (holds : m.Holds o) (f : Bucket → Bucket) :
      Step m (m.changeBucket o f)
  | evict {m : Memory} {o : Option Object} (holds : m.Holds o) : Step m (m.evict o)
  | clear {m : Memory} : Step m m.clear

/-- What steps can lead to. -/
inductive Reachable : Memory → Prop where
  | start : Reachable {}
  | step {m m' : Memory} (reachable : Reachable m) (step : Step m m') : Reachable m'

/-! ## What always holds -/

/-- The object is registered, and in one way: watched with a finalizer of its own, or pinned. -/
structure RegisteredOnce (m : Memory) (o : Object) : Prop where
  once : o.address ∈ m.registry.watched ↔ m.registry.pinned.contains o.address = false
  finalizer : o.address ∈ m.registry.watched →
    ∃ f ∈ m.armed, m.finalizers.get? o.address = some f ∧ f.serial = o.serial
  pin : m.registry.pinned.contains o.address = true → m.pins.get? o.address = some o.serial

/-- Nothing stands under a handle. -/
structure Blank (m : Memory) (handle : Nat) : Prop where
  trees : m.registry.trees.get? handle = none
  buckets : m.registry.buckets.get? handle = none
  watched : handle ∉ m.registry.watched
  pinned : m.registry.pinned.get? handle = none
  armed : ∀ f ∈ m.armed, f.handle ≠ handle

/-- The invariant of all steps. -/
structure Consistent (m : Memory) : Prop where
  serials : ∀ o ∈ m.live, ∀ p ∈ m.live, o.serial = p.serial → o = p
  addresses : ∀ o ∈ m.live, ∀ p ∈ m.live, o.address = p.address → o = p
  made : ∀ o ∈ m.live, o.serial < m.made
  watched : ∀ h, h ∈ m.registry.watched ↔ m.finalizers.contains h = true
  pinned : ∀ h, m.registry.pinned.contains h = m.pins.contains h
  watches : ∀ h f, m.finalizers.get? h = some f → f ∈ m.armed ∧ f.handle = h ∧
    ∃ o ∈ m.live, o.serial = f.serial ∧ o.address = h ∧ o.subject.watchable = true
  armed : ∀ f ∈ m.armed, m.finalizers.get? f.handle = some f
  ids : ∀ f ∈ m.armed, ∀ g ∈ m.armed, f.id = g.id → f = g
  given : ∀ f ∈ m.armed, f.id < m.made
  holds : ∀ h n, m.pins.get? h = some n →
    ∃ o ∈ m.live, o.serial = n ∧ o.address = h ∧ o.subject.watchable = false
  registered : ∀ h, (m.registry.trees.contains h = true ∨ m.registry.buckets.contains h = true) →
    m.registry.registered h = true
  shelved : ∀ o ∈ m.live, m.registry.trees.get? o.address = (m.shelves o.serial).tree ∧
    (m.registry.buckets.get? o.address).getD {} = (m.shelves o.serial).bucket
  fresh : ∀ n, m.made ≤ n → m.shelves n = {}

namespace Consistent

/-- The empty registry is consistent with no object alive. -/
theorem start : Consistent {} where
  serials _ live := nomatch live
  addresses _ live := nomatch live
  made _ live := nomatch live
  watched _ := by simp [Table.contains, Table.get?]
  pinned _ := rfl
  watches _ _ found := nomatch found
  armed _ inside := nomatch inside
  ids _ inside := nomatch inside
  given _ inside := nomatch inside
  holds _ _ found := nomatch found
  registered _ kept := by simp [Table.contains, Table.get?] at kept
  shelved _ live := nomatch live
  fresh _ _ := rfl

/-- Nothing is kept under a handle that is not registered. -/
theorem absent (c : Consistent m) {h : Nat} (unknown : m.registry.registered h = false) :
    m.registry.trees.get? h = none ∧ m.registry.buckets.get? h = none := by
  have no : ¬ (m.registry.trees.contains h = true ∨ m.registry.buckets.contains h = true) :=
    fun kept => by simp [c.registered h kept] at unknown
  simpa [Table.contains] using no

/-- A registered handle is the address of a live object. -/
theorem lives (c : Consistent m) {h : Nat} (known : m.registry.registered h = true) :
    ∃ o ∈ m.live, o.address = h := by
  rcases Registry.registered_iff.1 known with watched | pinned
  · obtain ⟨f, found⟩ := Table.contains_iff.1 ((c.watched h).1 watched)
    obtain ⟨-, -, o, live, -, here, -⟩ := c.watches h f found
    exact ⟨o, live, here⟩
  · obtain ⟨n, found⟩ := Table.contains_iff.1 (c.pinned h ▸ pinned)
    obtain ⟨o, live, -, here, -⟩ := c.holds h n found
    exact ⟨o, live, here⟩

/-- A new object takes an address no live object holds. -/
theorem allocate (c : Consistent m) {s : Subject} (free : ∀ o ∈ m.live, o.address ≠ s.handle) :
    Consistent (m.allocate s) := by
  have unknown : m.registry.registered s.handle = false := by
    refine Bool.eq_false_iff.2 fun known => ?_
    obtain ⟨o, live, here⟩ := c.lives known
    exact free o live here
  refine { c with serials := ?_, addresses := ?_, made := ?_, watches := ?_, given := ?_,
                  holds := ?_, shelved := ?_, fresh := ?_ }
  · intro o live p other same
    rcases List.mem_cons.1 live with rfl | old <;> rcases List.mem_cons.1 other with rfl | before
    · rfl
    · exact absurd same.symm (Nat.ne_of_lt (c.made p before))
    · exact absurd same (Nat.ne_of_lt (c.made o old))
    · exact c.serials o old p before same
  · intro o live p other same
    rcases List.mem_cons.1 live with rfl | old <;> rcases List.mem_cons.1 other with rfl | before
    · rfl
    · exact absurd same.symm (free p before)
    · exact absurd same (free o old)
    · exact c.addresses o old p before same
  · intro o live
    rcases List.mem_cons.1 live with rfl | old
    · exact Nat.lt_succ_self _
    · exact Nat.lt_succ_of_lt (c.made o old)
  · intro h f found
    obtain ⟨armed, here, o, live, rest⟩ := c.watches h f found
    exact ⟨armed, here, o, List.mem_cons_of_mem _ live, rest⟩
  · exact fun f inside => Nat.lt_succ_of_lt (c.given f inside)
  · intro h n found
    obtain ⟨o, live, rest⟩ := c.holds h n found
    exact ⟨o, List.mem_cons_of_mem _ live, rest⟩
  · intro o live
    rcases List.mem_cons.1 live with rfl | old
    · obtain ⟨tree, bucket⟩ := c.absent unknown
      have shelf := c.fresh m.made (Nat.le_refl _)
      change m.registry.trees.get? s.handle = (m.shelves m.made).tree ∧
        (m.registry.buckets.get? s.handle).getD {} = (m.shelves m.made).bucket
      rw [tree, bucket, shelf]
      exact ⟨rfl, rfl⟩
    · exact c.shelved o old
  · exact fun n above => c.fresh n (Nat.le_of_succ_le above)

/-! ### Releasing a handle -/

/-- What is under a handle is dropped; the object at that address, if it stays, has an empty shelf
from now on. -/
theorem released (c : Consistent m) {address : Nat} (live : List Object) {armed : List Finalizer}
    (shelves : Nat → Shelf) (lived : ∀ o ∈ live, o ∈ m.live)
    (stay : ∀ o ∈ m.live, o.address ≠ address → o ∈ live)
    (detached : ∀ f, f ∈ armed ↔ f ∈ m.armed ∧ f.handle ≠ address)
    (emptied : ∀ o ∈ live, o.address = address → shelves o.serial = {})
    (same : ∀ o ∈ live, o.address ≠ address → shelves o.serial = m.shelves o.serial)
    (fresh : ∀ n, m.made ≤ n → shelves n = {}) :
    Consistent { m.release address with live := live, armed := armed, shelves := shelves } where
  serials o lives p other := c.serials o (lived o lives) p (lived p other)
  addresses o lives p other := c.addresses o (lived o lives) p (lived p other)
  made o lives := c.made o (lived o lives)
  watched h := by
    change h ∈ m.registry.watched.filter (· ≠ address) ↔
      (m.finalizers.erase address).contains h = true
    by_cases here : h = address
    · simp [here]
    · rw [Table.contains_erase_of_ne _ here, ← c.watched h]
      simp [here]
  pinned h := by
    change (m.registry.pinned.erase address).contains h = (m.pins.erase address).contains h
    by_cases here : h = address
    · simp [here]
    · rw [Table.contains_erase_of_ne _ here, Table.contains_erase_of_ne _ here, c.pinned h]
  watches h f found := by
    have here : h ≠ address := by
      rintro rfl
      simp [release] at found
    change (m.finalizers.erase address).get? h = some f at found
    rw [Table.get?_erase_of_ne _ here] at found
    obtain ⟨inside, handle, o, lives, serial, place, watchable⟩ := c.watches h f found
    exact ⟨(detached f).2 ⟨inside, handle ▸ here⟩, handle, o, stay o lives (place ▸ here), serial,
      place, watchable⟩
  armed f inside := by
    obtain ⟨before, elsewhere⟩ := (detached f).1 inside
    exact (Table.get?_erase_of_ne m.finalizers elsewhere).trans (c.armed f before)
  ids f inside g other := c.ids f ((detached f).1 inside).1 g ((detached g).1 other).1
  given f inside := c.given f ((detached f).1 inside).1
  holds h n found := by
    have here : h ≠ address := by
      rintro rfl
      simp [release] at found
    change (m.pins.erase address).get? h = some n at found
    rw [Table.get?_erase_of_ne _ here] at found
    obtain ⟨o, lives, serial, place, slotted⟩ := c.holds h n found
    exact ⟨o, stay o lives (place ▸ here), serial, place, slotted⟩
  registered h kept := by
    change (m.registry.trees.erase address).contains h = true ∨
      (m.registry.buckets.erase address).contains h = true at kept
    have here : h ≠ address := by
      rintro rfl
      simp at kept
    rw [Table.contains_erase_of_ne _ here, Table.contains_erase_of_ne _ here] at kept
    have known := Registry.registered_iff.1 (c.registered h kept)
    refine Registry.registered_iff.2 ?_
    change h ∈ m.registry.watched.filter (· ≠ address) ∨
      (m.registry.pinned.erase address).contains h = true
    rw [Table.contains_erase_of_ne _ here]
    simpa [here] using known
  shelved o lives := by
    change (m.registry.trees.erase address).get? o.address = (shelves o.serial).tree ∧
      ((m.registry.buckets.erase address).get? o.address).getD {} = (shelves o.serial).bucket
    by_cases here : o.address = address
    · rw [emptied o lives here, here, Table.get?_erase_self, Table.get?_erase_self]
      exact ⟨rfl, rfl⟩
    · rw [same o lives here, Table.get?_erase_of_ne _ here, Table.get?_erase_of_ne _ here]
      exact c.shelved o (lived o lives)
  fresh := fresh

/-- Dropping the last reference of the program kills nothing by itself. -/
theorem drop (c : Consistent m) (o : Object) : Consistent (m.drop o) :=
  { c with }

/-- The finalizers of a live object are those under its address. -/
theorem serial_iff (c : Consistent m) (live : o ∈ m.live) {f : Finalizer} (armed : f ∈ m.armed) :
    f.serial = o.serial ↔ f.handle = o.address := by
  obtain ⟨-, -, p, lives, serial, here, -⟩ := c.watches f.handle f (c.armed f armed)
  constructor
  · intro own
    rw [← here, c.serials p lives o live (serial.trans own)]
  · intro place
    rw [← serial, c.addresses p lives o live (here.trans place)]

end Consistent

/-- Releasing a handle twice is releasing it once, so a finalizer after an eviction does no harm. -/
theorem release_release (m : Memory) (handle : Nat) :
    (m.release handle).release handle = m.release handle := by
  simp [release, Registry.forget, Table.erase_erase]

/-- Finalizers for one handle do what one of them does. -/
theorem foldl_release (own : List Finalizer) {handle : Nat} (same : ∀ f ∈ own, f.handle = handle)
    (m : Memory) : own.foldl (fun m f => m.release f.handle) m =
      if own = [] then m else m.release handle := by
  induction own generalizing m with
  | nil => rfl
  | cons f rest ih =>
    obtain ⟨here, others⟩ := List.forall_mem_cons.1 same
    rw [List.foldl_cons, ih others, here, if_neg (List.cons_ne_nil _ _)]
    split
    · rfl
    · exact release_release m handle

/-- Where nothing stands there is nothing to release. -/
theorem release_of_blank (c : Consistent m) {handle : Nat}
    (unknown : m.registry.registered handle = false) : m.release handle = m := by
  obtain ⟨tree, bucket⟩ := c.absent unknown
  have apart : handle ∉ m.registry.watched ∧ m.registry.pinned.contains handle = false := by
    simpa [Registry.registered] using unknown
  have finalizer : m.finalizers.get? handle = none :=
    Table.contains_eq_false_iff.1 (Bool.eq_false_iff.2 (mt (c.watched handle).2 apart.1))
  have pin : m.pins.get? handle = none :=
    Table.contains_eq_false_iff.1 (c.pinned handle ▸ apart.2)
  have watched : m.registry.watched.filter (· ≠ handle) = m.registry.watched :=
    List.filter_eq_self.2 fun h inside => by
      have other : h ≠ handle := fun same => apart.1 (same ▸ inside)
      simpa using other
  simp only [release, Registry.forget, Table.erase_of_get?_none tree,
    Table.erase_of_get?_none bucket, Table.erase_of_get?_none finalizer,
    Table.erase_of_get?_none pin, watched,
    Table.erase_of_get?_none (Table.contains_eq_false_iff.1 apart.2)]

namespace Consistent

/-- **The end of an object** drops what is under its address, whether or not it was registered. -/
theorem collect_eq (c : Consistent m) (garbage : m.Garbage o) :
    m.collect o = { m.release o.address with
      live := m.live.filter fun p => p.serial ≠ o.serial
      armed := m.armed.filter fun f => f.serial ≠ o.serial } := by
  have same : ∀ f ∈ m.armed.filter fun f => f.serial = o.serial, f.handle = o.address := by
    intro f inside
    obtain ⟨armed, own⟩ := List.mem_filter.1 inside
    exact (c.serial_iff garbage.live armed).1 (of_decide_eq_true own)
  simp only [Memory.collect, foldl_release _ same]
  split
  next none =>
    -- Without a finalizer the object is not watched, and nothing pins it.
    rw [release_of_blank c]
    refine Bool.eq_false_iff.2 fun known => ?_
    rcases Registry.registered_iff.1 known with watched | pinned
    · obtain ⟨f, found⟩ := Table.contains_iff.1 ((c.watched o.address).1 watched)
      obtain ⟨armed, here, -⟩ := c.watches _ f found
      have own := (c.serial_iff garbage.live armed).2 here
      exact List.filter_eq_nil_iff.1 none f armed (by simpa using own)
    · obtain ⟨n, found⟩ := Table.contains_iff.1 (c.pinned o.address ▸ pinned)
      obtain ⟨p, live, serial, here, -⟩ := c.holds _ n found
      rw [← serial, c.addresses p live o garbage.live here] at found
      exact garbage.unpinned _ found
  next => rfl

/-- Collecting garbage runs its finalizers, and what they release is what was kept for it. -/
theorem collect (c : Consistent m) (garbage : m.Garbage o) : Consistent (m.collect o) := by
  rw [c.collect_eq garbage]
  refine c.released _ m.shelves ?_ ?_ ?_ ?_ ?_ c.fresh
  · exact fun p inside => (List.mem_filter.1 inside).1
  · intro p live elsewhere
    have other : p.serial ≠ o.serial := fun same =>
      elsewhere (congrArg Object.address (c.serials p live o garbage.live same))
    exact List.mem_filter.2 ⟨live, by simpa using other⟩
  · intro f
    rw [List.mem_filter]
    refine and_congr_right fun armed => ?_
    simpa using not_congr (c.serial_iff garbage.live armed)
  · intro p inside here
    obtain ⟨live, other⟩ := List.mem_filter.1 inside
    rw [c.addresses p live o garbage.live here] at other
    simp at other
  · exact fun _ _ _ => rfl

/-- Detaching an address disarms its finalizers and no others. -/
theorem mem_detached_iff (c : Consistent m) (address : Nat) (f : Finalizer) :
    f ∈ m.detached address ↔ f ∈ m.armed ∧ f.handle ≠ address := by
  unfold detached
  cases found : m.finalizers.get? address with
  | none =>
    refine (and_iff_left_of_imp fun armed here => ?_).symm
    rw [← here, c.armed f armed] at found
    cases found
  | some g =>
    obtain ⟨armed, here, -⟩ := c.watches address g found
    rw [List.mem_filter]
    refine and_congr_right fun inside => ?_
    have one : f.id = g.id ↔ f.handle = address := by
      constructor
      · intro same
        rw [c.ids f inside g armed same, here]
      · intro place
        rw [← place, c.armed f inside] at found
        cases found
        rfl
    simpa using not_congr one

/-- Evicting a schema drops what is under its address. -/
theorem evict (c : Consistent m) {o : Option Object} (holds : m.Holds o) :
    Consistent (m.evict o) := by
  cases o with
  | none => exact { c with }
  | some o =>
    refine c.released m.live _ (fun _ => id) (fun _ live _ => live)
      (c.mem_detached_iff o.address) ?_ ?_ ?_
    · intro p live here
      rw [c.addresses p live o holds.1 here]
      exact Function.update_self ..
    · intro p live elsewhere
      refine Function.update_of_ne (fun same => elsewhere ?_) ..
      rw [c.serials p live o holds.1 same]
    · intro n above
      refine (Function.update_of_ne (fun same => ?_) ..).trans (c.fresh n above)
      exact absurd (c.made o holds.1) (Nat.not_lt.2 (same ▸ above))

/-- Clearing the registry leaves no finalizer armed. -/
theorem armed_clear (c : Consistent m) : m.clear.armed = [] := by
  refine List.filter_eq_nil_iff.2 fun f inside => ?_
  have known := Table.mem_of_get? (c.armed f inside)
  simpa using ⟨f.handle, f, known, rfl⟩

theorem clear (c : Consistent m) : Consistent m.clear := by
  refine { c with watched := ?_, pinned := ?_, watches := ?_, armed := ?_, ids := ?_, given := ?_,
                  holds := ?_, registered := ?_, shelved := ?_, fresh := ?_ }
  · intro h
    simp [Memory.clear, Registry.clear, Table.contains, Table.get?]
  · exact fun _ => rfl
  · exact fun _ _ found => absurd found (by simp [Memory.clear, Table.get?])
  · rw [c.armed_clear]
    exact fun _ inside => absurd inside List.not_mem_nil
  · rw [c.armed_clear]
    exact fun _ inside => absurd inside List.not_mem_nil
  · rw [c.armed_clear]
    exact fun _ inside => absurd inside List.not_mem_nil
  · exact fun _ _ found => absurd found (by simp [Memory.clear, Registry.clear, Table.get?])
  · intro h kept
    simp [Memory.clear, Registry.clear, Table.contains, Table.get?] at kept
  · exact fun _ _ => ⟨rfl, rfl⟩
  · exact fun _ _ => rfl

/-! ### Registering and looking up -/

/-- An object whose end can be noticed gets a finalizer of its own. -/
theorem arm (c : Consistent m) (live : o ∈ m.live) (watchable : o.subject.watchable = true)
    (unknown : o.address ∉ m.registry.watched) : Consistent (m.arm o) := by
  refine { c with made := ?_, watched := ?_, watches := ?_, armed := ?_, ids := ?_, given := ?_,
                  registered := ?_, fresh := ?_ }
  · exact fun p inside => Nat.lt_succ_of_lt (c.made p inside)
  · intro h
    change h ∈ m.registry.watched ++ [o.address] ↔ (m.finalizers.put o.address _).contains h = true
    by_cases here : h = o.address
    · simp [here]
    · rw [Table.contains_put_of_ne _ _ here, ← c.watched h]
      simp [here]
  · intro h f found
    by_cases here : h = o.address
    · subst here
      obtain rfl := Option.some.inj ((Table.get?_put_self ..).symm.trans found)
      exact ⟨List.mem_cons_self, rfl, o, live, rfl, rfl, watchable⟩
    · obtain ⟨armed, rest⟩ := c.watches h f ((Table.get?_put_of_ne _ _ here).symm.trans found)
      exact ⟨List.mem_cons_of_mem _ armed, rest⟩
  · intro f inside
    rcases List.mem_cons.1 inside with rfl | before
    · exact Table.get?_put_self ..
    · have found := c.armed f before
      have here : f.handle ≠ o.address := by
        intro same
        rw [same] at found
        exact unknown ((c.watched _).2 (Table.contains_iff.2 ⟨f, found⟩))
      exact (Table.get?_put_of_ne _ _ here).trans found
  · intro f inside g other same
    rcases List.mem_cons.1 inside with rfl | before <;>
      rcases List.mem_cons.1 other with rfl | old
    · rfl
    · exact absurd same.symm (Nat.ne_of_lt (c.given g old))
    · exact absurd same (Nat.ne_of_lt (c.given f before))
    · exact c.ids f before g old same
  · intro f inside
    rcases List.mem_cons.1 inside with rfl | before
    · exact Nat.lt_succ_self _
    · exact Nat.lt_succ_of_lt (c.given f before)
  · intro h kept
    have before := Registry.registered_iff.1 (c.registered h kept)
    exact Registry.registered_iff.2 (before.imp_left (List.mem_append_left _))
  · exact fun n above => c.fresh n (Nat.le_of_succ_le above)

/-- Any other object is pinned. -/
theorem pin (c : Consistent m) (live : o ∈ m.live) (unwatchable : o.subject.watchable = false) :
    Consistent (m.pin o) := by
  refine { c with pinned := ?_, holds := ?_, registered := ?_ }
  · intro h
    by_cases here : h = o.address
    · subst here
      exact (Table.contains_put_self ..).trans (Table.contains_put_self ..).symm
    · exact (Table.contains_put_of_ne _ _ here).trans
        ((c.pinned h).trans (Table.contains_put_of_ne _ _ here).symm)
  · intro h n found
    by_cases here : h = o.address
    · subst here
      obtain rfl := Option.some.inj ((Table.get?_put_self ..).symm.trans found)
      exact ⟨o, live, rfl, rfl, unwatchable⟩
    · exact c.holds h n ((Table.get?_put_of_ne _ _ here).symm.trans found)
  · intro h kept
    refine Registry.registered_iff.2 ((Registry.registered_iff.1 (c.registered h kept)).imp_right
      fun pinned => ?_)
    by_cases here : h = o.address
    · subst here
      exact Table.contains_put_self ..
    · exact (Table.contains_put_of_ne _ _ here).trans pinned

/-- Registering a live object: a finalizer, a pin, or nothing new. -/
theorem enrolled (c : Consistent m) (live : o ∈ m.live) :
    Consistent { m.enrol o with registry := m.registry.enrolled o.subject } := by
  unfold enrol Registry.enrolled
  by_cases known : m.registry.registered o.address = true
  · rw [if_pos known, if_pos known]
    exact c
  · rw [if_neg known, if_neg known]
    by_cases watchable : o.subject.watchable = true
    · rw [if_pos watchable, if_pos watchable]
      exact c.arm live watchable fun watched => known (Registry.registered_iff.2 (.inl watched))
    · rw [if_neg watchable, if_neg watchable]
      exact c.pin live (Bool.not_eq_true _ ▸ watchable)

end Consistent

/-- A run of the registry's code changes the registry and nothing else of the memory. -/
theorem run_eq {α : Type} {x : RegistryM α} {answer : Except Failure α} {r : Registry}
    (yields : RegistryM.Yields x m.registry answer r) : m.run x = { m with registry := r } := by
  obtain ⟨journal, run⟩ := yields []
  rw [Memory.run, run]

namespace Consistent

/-- Nothing that stands under a handle has changed. -/
theorem of_same (c : Consistent m) {r : Registry} (trees : r.trees = m.registry.trees)
    (buckets : r.buckets = m.registry.buckets) (watched : r.watched = m.registry.watched)
    (pinned : r.pinned = m.registry.pinned) : Consistent { m with registry := r } := by
  refine { c with watched := ?_, pinned := ?_, registered := ?_, shelved := ?_ }
  · exact fun h => by rw [watched, c.watched]
  · exact fun h => by rw [pinned, c.pinned]
  · intro h kept
    rw [trees, buckets] at kept
    have before := c.registered h kept
    rwa [Registry.registered, ← watched, ← pinned] at before
  · intro o live
    rw [trees, buckets]
    exact c.shelved o live

/-- What stands under the address of one registered object has changed, and its shelf with it. -/
theorem reshelved (c : Consistent m) (live : o ∈ m.live)
    (known : m.registry.registered o.address = true) {r : Registry} (shelf : Shelf)
    (watched : r.watched = m.registry.watched) (pinned : r.pinned = m.registry.pinned)
    (trees : ∀ h, h ≠ o.address → r.trees.get? h = m.registry.trees.get? h)
    (buckets : ∀ h, h ≠ o.address → r.buckets.get? h = m.registry.buckets.get? h)
    (tree : r.trees.get? o.address = shelf.tree)
    (bucket : (r.buckets.get? o.address).getD {} = shelf.bucket) :
    Consistent { m with
      registry := r, shelves := Function.update m.shelves o.serial shelf } := by
  refine { c with watched := ?_, pinned := ?_, registered := ?_, shelved := ?_, fresh := ?_ }
  · exact fun h => by rw [watched, c.watched]
  · exact fun h => by rw [pinned, c.pinned]
  · intro h kept
    rw [Registry.registered, watched, pinned]
    by_cases here : h = o.address
    · exact here ▸ known
    · unfold Table.contains at kept
      rw [trees h here, buckets h here] at kept
      exact c.registered h kept
  · intro p lives
    by_cases same : p.serial = o.serial
    · rw [c.serials p lives o live same]
      dsimp only
      rw [Function.update_self]
      exact ⟨tree, bucket⟩
    · have elsewhere : p.address ≠ o.address := fun here =>
        same (congrArg Object.serial (c.addresses p lives o live here))
      dsimp only
      rw [Function.update_of_ne same, trees _ elsewhere, buckets _ elsewhere]
      exact c.shelved p lives
  · intro n above
    have other : n ≠ o.serial := fun same =>
      absurd (c.made o live) (Nat.not_lt.2 (same ▸ above))
    exact (Function.update_of_ne other ..).trans (c.fresh n above)

theorem shelves_enrol (m : Memory) (o : Object) : (m.enrol o).shelves = m.shelves := by
  unfold enrol
  split
  · rfl
  · split <;> rfl

theorem live_enrol (m : Memory) (o : Object) : (m.enrol o).live = m.live := by
  unfold enrol
  split
  · rfl
  · split <;> rfl

/-- What a lookup of a tree answers, and what it makes of the registry. -/
theorem yields_treeOf (c : Consistent m) (live : o ∈ m.live) (build : Value → Traced Rule) :
    ∃ r, RegistryM.Yields (RegistryM.treeOf (some o.subject) build) m.registry
        (match (m.shelves o.serial).tree with
          | some tree => .ok tree
          | none => (build o.subject.value).outcome.map (⟨m.registry.nextId, ·⟩)) r ∧
      r.watched = (m.registry.enrolled o.subject).watched ∧
      r.pinned = (m.registry.enrolled o.subject).pinned ∧ r.buckets = m.registry.buckets ∧
      (∀ h, h ≠ o.address → r.trees.get? h = m.registry.trees.get? h) ∧
      r.trees.get? o.address = ((m.shelves o.serial).stock m.registry.nextId
        (build o.subject.value).outcome).tree := by
  obtain ⟨shelved, -⟩ := c.shelved o live
  unfold Shelf.stock
  cases shelf : (m.shelves o.serial).tree with
  | some tree =>
    have kept := shelved.trans shelf
    refine ⟨_, RegistryM.yields_treeOf_kept kept, rfl, rfl, by simp, by simp, ?_⟩
    simpa using kept
  | none =>
    have missing := shelved.trans shelf
    cases outcome : (build o.subject.value).outcome with
    | error e =>
      refine ⟨_, RegistryM.yields_treeOf_failed missing outcome, rfl, rfl, by simp, by simp, ?_⟩
      simpa [Except.toOption] using missing
    | ok tree =>
      refine ⟨_, RegistryM.yields_treeOf_built missing outcome, rfl, rfl, by simp, ?_, ?_⟩
      · exact fun h elsewhere => Table.get?_put_of_ne _ _ elsewhere
      · exact Table.get?_put_self ..

/-- Looking up a tree keeps the memory consistent, whether the tree was kept or is built. -/
theorem treeOf (c : Consistent m) {o : Option Object} (holds : m.Holds o)
    (build : Value → Traced Rule) : Consistent (m.treeOf o build) := by
  cases o with
  | none =>
    have stores : RegistryM.Yields (RegistryM.treeOf none build) m.registry _ _ :=
      RegistryM.Yields.store Rule.empty
    change Consistent (m.run (RegistryM.treeOf none build))
    rw [run_eq stores]
    exact c.of_same rfl rfl rfl rfl
  | some o =>
    obtain ⟨r, yields, watched, pinned, buckets, trees, tree⟩ := c.yields_treeOf holds.1 build
    have enrolled := c.enrolled holds.1
    have bucket := (c.shelved o holds.1).2
    have registry : (m.run (RegistryM.treeOf (some o.subject) build)).registry = r := by
      rw [run_eq yields]
    have result := enrolled.reshelved (o := o) (r := r)
      (live_enrol m o ▸ holds.1) (Registry.registered_enrolled ..)
      ((m.shelves o.serial).stock m.registry.nextId (build o.subject.value).outcome) watched pinned
      (by simpa using trees) (by simp [buckets]) tree (by rw [buckets]; exact bucket)
    rw [Memory.treeOf, onShelf, shelves_enrol]
    dsimp only [Option.map_some]
    rw [registry]
    dsimp only at result
    rwa [shelves_enrol] at result

/-- Filling a bucket enrols its schema first, and pins nothing else. -/
theorem yields_changeBucket (c : Consistent m) (live : o ∈ m.live) (f : Bucket → Bucket) :
    ∃ r, RegistryM.Yields (RegistryM.bucketOf (some o.subject) >>= fun _ =>
        RegistryM.changeBucket (some o.subject) f) m.registry (.ok ()) r ∧
      r.watched = (m.registry.enrolled o.subject).watched ∧
      r.pinned = (m.registry.enrolled o.subject).pinned ∧ r.trees = m.registry.trees ∧
      (∀ h, h ≠ o.address → r.buckets.get? h = m.registry.buckets.get? h) ∧
      (r.buckets.get? o.address).getD {} = f (m.shelves o.serial).bucket := by
  obtain ⟨-, shelved⟩ := c.shelved o live
  refine ⟨_, RegistryM.Yields.bind (RegistryM.yields_bucketOf_some o.subject m.registry)
    (RegistryM.Yields.change _), rfl, rfl, ?_, ?_, ?_⟩
  · exact Registry.trees_enrolled ..
  · intro h elsewhere
    refine (Table.get?_put_of_ne _ _ elsewhere).trans ?_
    unfold Registry.furnished
    dsimp only
    split
    · rfl
    · exact Table.get?_put_of_ne _ _ elsewhere
  · dsimp only
    rw [Table.get?_put_self, Registry.bucket_furnished, shelved]
    rfl

/-- Filling a bucket keeps the memory consistent. -/
theorem changeBucket (c : Consistent m) {o : Option Object} (holds : m.Holds o)
    (f : Bucket → Bucket) : Consistent (m.changeBucket o f) := by
  cases o with
  | none =>
    have changes : RegistryM.Yields (RegistryM.bucketOf none >>= fun _ =>
        RegistryM.changeBucket none f) m.registry _ _ :=
      RegistryM.Yields.bind (RegistryM.Yields.bind RegistryM.Yields.registry
        (RegistryM.Yields.pure _)) (RegistryM.Yields.change _)
    change Consistent (m.run (RegistryM.bucketOf none >>= fun _ => RegistryM.changeBucket none f))
    rw [run_eq changes]
    exact c.of_same rfl rfl rfl rfl
  | some o =>
    obtain ⟨r, yields, watched, pinned, trees, buckets, bucket⟩ := c.yields_changeBucket holds.1 f
    have enrolled := c.enrolled holds.1
    have tree := (c.shelved o holds.1).1
    have registry : (m.run (RegistryM.bucketOf (some o.subject) >>= fun _ =>
        RegistryM.changeBucket (some o.subject) f)).registry = r := by
      rw [run_eq yields]
    have result := enrolled.reshelved (o := o) (r := r)
      (live_enrol m o ▸ holds.1) (Registry.registered_enrolled ..)
      { m.shelves o.serial with bucket := f (m.shelves o.serial).bucket } watched pinned
      (by simp [trees]) (by simpa using buckets) (by rw [trees]; exact tree) bucket
    rw [Memory.changeBucket, onShelf, shelves_enrol]
    dsimp only [Option.map_some]
    rw [registry]
    dsimp only at result
    rwa [shelves_enrol] at result

/-- One step. -/
theorem step (c : Consistent m) (step : Step m m') : Consistent m' := by
  cases step with
  | allocate s free => exact c.allocate free
  | drop o => exact c.drop o
  | collect garbage => exact c.collect garbage
  | treeOf holds build => exact c.treeOf holds build
  | changeBucket holds f => exact c.changeBucket holds f
  | evict holds => exact c.evict holds
  | clear => exact c.clear

/-! ## What follows -/

/-- What is registered is registered in one way. -/
theorem registeredOnce (c : Consistent m) (live : o ∈ m.live)
    (known : m.registry.registered o.address = true) : m.RegisteredOnce o := by
  have finalizer : o.address ∈ m.registry.watched →
      o.subject.watchable = true ∧
        ∃ f ∈ m.armed, m.finalizers.get? o.address = some f ∧ f.serial = o.serial := by
    intro watched
    obtain ⟨f, found⟩ := Table.contains_iff.1 ((c.watched o.address).1 watched)
    obtain ⟨armed, -, p, lives, serial, here, watchable⟩ := c.watches _ f found
    obtain rfl := c.addresses p lives o live here
    exact ⟨watchable, f, armed, found, serial.symm⟩
  have pin : m.registry.pinned.contains o.address = true →
      o.subject.watchable = false ∧ m.pins.get? o.address = some o.serial := by
    intro pinned
    obtain ⟨n, found⟩ := Table.contains_iff.1 (c.pinned o.address ▸ pinned)
    obtain ⟨p, lives, serial, here, slotted⟩ := c.holds _ n found
    obtain rfl := c.addresses p lives o live here
    exact ⟨slotted, found.trans (congrArg some serial.symm)⟩
  refine ⟨⟨fun watched => ?_, fun unpinned => ?_⟩, fun watched => (finalizer watched).2,
    fun pinned => (pin pinned).2⟩
  · refine Bool.eq_false_iff.2 fun pinned => ?_
    rw [(finalizer watched).1] at pin
    exact nomatch (pin pinned).1
  · rcases Registry.registered_iff.1 known with watched | pinned
    · exact watched
    · rw [unpinned] at pinned
      cases pinned

/-- Nothing is kept for an address after its release. -/
theorem blank_release (m : Memory) (handle : Nat) {armed : List Finalizer} {live : List Object}
    {shelves : Nat → Shelf} (detached : ∀ f ∈ armed, f.handle ≠ handle) :
    Blank { m.release handle with live := live, armed := armed, shelves := shelves } handle where
  trees := Table.get?_erase_self ..
  buckets := Table.get?_erase_self ..
  watched := by simp [release, Registry.forget]
  pinned := Table.get?_erase_self ..
  armed := detached

end Consistent

/-- No lookup is stale. -/
structure Current (m : Memory) : Prop where
  /-- What is kept stands under the address of a live object, which is registered in one way. -/
  kept : ∀ h, (m.registry.trees.contains h = true ∨ m.registry.buckets.contains h = true) →
    ∃ o ∈ m.live, o.address = h ∧ m.RegisteredOnce o
  /-- A tree is the one on the shelf of the object; if there is none it is built. -/
  tree : ∀ o, m.Holds (some o) → ∀ build journal,
    ((RegistryM.treeOf (some o.subject) build).run ⟨m.registry, journal⟩).1 =
      match (m.shelves o.serial).tree with
      | some tree => .ok tree
      | none => (build o.subject.value).outcome.map (⟨m.registry.nextId, ·⟩)
  /-- A bucket is the one on the shelf of the object. -/
  bucket : ∀ o, m.Holds (some o) → ∀ journal,
    ((RegistryM.bucketOf (some o.subject)).run ⟨m.registry, journal⟩).1 =
      .ok (m.shelves o.serial).bucket
  evicted : ∀ o, m.Holds (some o) → (m.evict (some o)).Blank o.address
  cleared : ∀ h, m.clear.Blank h
  collected : ∀ o, m.Garbage o → (m.collect o).Blank o.address ∧
    ∀ p ∈ (m.collect o).live, p.address ≠ o.address

/-- In a consistent memory whatever is kept for an address was made for the object that lives there.
-/
theorem Consistent.current (c : Consistent m) : m.Current where
  kept h kept := by
    have known := c.registered h kept
    obtain ⟨o, live, rfl⟩ := c.lives known
    exact ⟨o, live, rfl, c.registeredOnce live known⟩
  tree o holds build journal := by
    obtain ⟨r, yields, -⟩ := c.yields_treeOf holds.1 build
    obtain ⟨after, run⟩ := yields journal
    rw [run]
  bucket o holds journal := by
    obtain ⟨after, run⟩ := RegistryM.yields_bucketOf_some o.subject m.registry journal
    rw [run, (c.shelved o holds.1).2]
  evicted o holds :=
    blank_release m o.address fun f inside => ((c.mem_detached_iff o.address f).1 inside).2
  cleared h := by
    refine ⟨rfl, rfl, ?_, rfl, ?_⟩
    · exact fun inside => nomatch inside
    · rw [c.armed_clear]
      exact fun _ inside => nomatch inside
  collected o garbage := by
    rw [c.collect_eq garbage]
    constructor
    · refine blank_release m o.address fun f inside => ?_
      obtain ⟨armed, other⟩ := List.mem_filter.1 inside
      exact mt (c.serial_iff garbage.live armed).2 (of_decide_eq_true other)
    · intro p inside here
      obtain ⟨live, other⟩ := List.mem_filter.1 inside
      rw [c.addresses p live o garbage.live here] at other
      simp at other

/-- **No lookup is ever stale**, whatever addresses have been used again. -/
theorem Reachable.never_stale (reachable : m.Reachable) : m.Current := by
  have consistent : Consistent m := by
    induction reachable with
    | start => exact Consistent.start
    | step _ step before => exact before.step step
  exact consistent.current

/-- Two schema objects that live at one address, one after the other. -/
def firstTenant : Object := ⟨0, ⟨7, true, .source ⟨0, "DocumentSchema", "first"⟩⟩⟩

def secondTenant : Object := ⟨2, ⟨7, true, .source ⟨1, "DocumentSchema", "second"⟩⟩⟩

/-- The first tenant has had a tree, and has come to its end. -/
def firstTenancy : Memory :=
  ((({} : Memory).allocate firstTenant.subject).treeOf (some firstTenant) fun _ => pure .empty).drop
    firstTenant

def secondTenancy : Memory := (firstTenancy.collect firstTenant).allocate secondTenant.subject

theorem never_stale_secondTenancy : secondTenancy.Reachable ∧
    secondTenancy.Holds (some secondTenant) ∧
    firstTenancy.registry.trees.contains secondTenant.address = true ∧ secondTenancy.Current := by
  have garbage : firstTenancy.Garbage firstTenant :=
    ⟨List.mem_singleton_self _, List.not_mem_nil, fun _ => nofun⟩
  have holds : (({} : Memory).allocate firstTenant.subject).Holds (some firstTenant) :=
    ⟨List.mem_singleton_self _, List.mem_singleton_self _⟩
  have used : firstTenancy.Reachable :=
    .step (.step (.step .start (.allocate _ fun _ live => nomatch live)) (.treeOf holds _)) (.drop _)
  have reachable : secondTenancy.Reachable :=
    .step (.step used (.collect garbage)) (.allocate _ fun _ live => nomatch live)
  exact ⟨reachable, ⟨List.mem_singleton_self _, List.mem_singleton_self _⟩, rfl,
    reachable.never_stale⟩

end Memory

end ShapeContract
