import ShapeContract.Proofs.Fields
import ShapeContract.Proofs.Lists
import ShapeContract.Proofs.Value.Ranked
import ShapeContract.Value.Entries

/-!
# Equality of data

Data is null, a number, a text, or a list or a mapping of data. Numbers are equal if their ranks are,
lists item by item, and mappings if each entry of one has its partner in the other. Between data this
is an equivalence: `IsData.lawful`.
-/

set_option autoImplicit false

namespace ShapeContract

/-- Not-a-number equals no number. -/
theorem Number.same_of_unranked {x y : Number} (unranked : y.rank? = none) : x.same y = false := by
  cases y with
  | int j => cases unranked
  | double d => cases x <;> simp [same, unranked]

namespace Value

/-! ## Data -/

/-- What a value without parts says: nothing, a number by its rank, or a text. -/
inductive Atom where
  | null
  | number (rank : ℤ ×ₗ ℤ)
  | text (s : String)

/-- Values without parts, and the others by what they are. -/
inductive Shape where
  | plain
  | list
  | object
  | mapping

def shape : Value → Shape
  | .list _ => .list
  | .object _ => .object
  | .mapping _ _ => .mapping
  | _ => .plain

def atom? (v : Value) : Option Atom :=
  match v.rank?, v.text? with
  | some r, _ => some (.number r)
  | none, some s => some (.text s)
  | none, none => if v.isNull then some .null else none

/-- The mapping with the given entries. -/
def ofEntries (es : Entries) : Value := .mapping (es.map Prod.fst) (es.map Prod.snd)

/-- No two entries have equal keys. -/
def Own (es : Entries) : Prop := es.Pairwise fun e f => equal e.1 f.1 = false

/-- Null, numbers and texts, and lists and mappings of data; no two keys of a mapping are equal. -/
inductive IsData : Value → Prop
  | atom {v : Value} {a : Atom} (atom : v.atom? = some a) : IsData v
  | list {vs : List Value} (each : ∀ v ∈ vs, IsData v) : IsData (.list vs)
  | object {fs : Fields Value} (own : fs.keys.Nodup) (each : ∀ e ∈ fs, IsData e.2) :
      IsData (.object fs)
  | mapping {es : Entries} (own : Own es) (keys : ∀ e ∈ es, IsData e.1)
      (each : ∀ e ∈ es, IsData e.2) : IsData (ofEntries es)

/-- A property of all keys and values. -/
def EntriesAre (P : Value → Prop) (es : Entries) : Prop := ∀ e ∈ es, P e.1 ∧ P e.2

variable {v w : Value} {a b : Atom}

/-- A text has no rank among numbers. -/
theorem rank?_of_text? {s : String} (text : v.text? = some s) : v.rank? = none := by
  cases number : v.number? with
  | some x => cases (text?_of_number? number).symm.trans text
  | none => simp [rank?, number]

/-- A value stands for a number if it has a rank. -/
theorem atom?_number_iff {r : ℤ ×ₗ ℤ} : v.atom? = some (.number r) ↔ v.rank? = some r := by
  unfold atom?
  split
  next known => simp [known]
  next unknown _ => simp [unknown]
  next unknown _ => split <;> simp [unknown]

/-- A value stands for a text if it has one. -/
theorem atom?_text_iff {s : String} : v.atom? = some (.text s) ↔ v.text? = some s := by
  unfold atom?
  split
  next ranked =>
    refine iff_of_false nofun fun text => ?_
    cases (rank?_of_text? text).symm.trans ranked
  next text => simp [text]
  next none => split <;> simp [none]

/-- Only null stands for null. -/
theorem atom?_null_iff : v.atom? = some .null ↔ v = .null := by
  constructor
  · intro atom
    unfold atom? at atom
    split at atom
    next => cases atom
    next => cases atom
    next =>
      split at atom
      next isNull => cases v <;> first | rfl | cases isNull
      next => cases atom
  · rintro rfl
    rfl

/-- What stands for an atom has no parts. -/
theorem shape_of_atom (atom : v.atom? = some a) : v.shape = .plain := by
  cases v <;> first | rfl | cases atom

/-! ## What a value equals -/

/-- A value with parts is not compared as a scalar. -/
theorem sameScalar_of_shape (parts : v.shape ≠ .plain) (w : Value) : sameScalar v w = false := by
  obtain ⟨number, text⟩ : v.number? = none ∧ v.text? = none := by
    cases v <;> first | exact ⟨rfl, rfl⟩ | exact absurd rfl parts
  unfold sameScalar
  rw [number, text]
  cases w.number? with
  | some y => rfl
  | none =>
    cases w.text? with
    | some t => rfl
    | none => cases v <;> first | rfl | exact absurd rfl parts

/-- A value with parts equals only values of its shape. -/
theorem equal_of_other_shape (parts : v.shape ≠ .plain) (other : v.shape ≠ w.shape) :
    equal v w = false := by
  have scalar : equal v w = sameScalar v w := by
    cases v <;> first | exact absurd rfl parts | skip
    all_goals cases w <;> first | rfl | exact absurd rfl other
  rw [scalar, sameScalar_of_shape parts]

/-- Only null equals null. -/
theorem equal_null_iff : equal .null w = true ↔ w = .null := by
  constructor
  · intro same
    have scalar : sameScalar .null w = true := by
      cases w <;> exact same
    unfold sameScalar at scalar
    rw [show number? .null = none from rfl, show text? .null = none from rfl] at scalar
    cases number : w.number? with
    | some y => simp [number] at scalar
    | none =>
      cases text : w.text? with
      | some t => simp [number, text] at scalar
      | none => cases w <;> simp_all
  · rintro rfl
    rfl

/-- Two entries with equal keys and equal values. -/
def EqualEntries (e f : Value × Value) : Prop := equal e.1 f.1 = true ∧ equal e.2 f.2 = true

/-- As many entries, and each has its equal. -/
def Within (es fs : Entries) : Prop :=
  es.length = fs.length ∧ ∀ e ∈ es, ∃ f ∈ fs, EqualEntries e f

/-- No key equals those of two entries. -/
def Single (es fs : Entries) : Prop :=
  ∀ e ∈ es, ∀ f ∈ fs, ∀ g ∈ fs, equal e.1 f.1 = true → equal e.1 g.1 = true → f = g


/-- A mapping is within another if each of its fields has an equal value there. -/
theorem fieldsWithin_iff {fs gs : Fields Value} :
    fieldsWithin fs gs = true ↔ ∀ e ∈ fs, ∃ w, gs.get? e.1 = some w ∧ equal e.2 w = true := by
  induction fs with
  | nil => simp [fieldsWithin]
  | cons e rest ih =>
    rw [fieldsWithin, Bool.and_eq_true, ih, List.forall_mem_cons]
    refine and_congr_left' ?_
    cases gs.get? e.1 <;> simp

/-- A text equals what is the same text, and nothing else. -/
theorem equal_text {s : String} (text : v.text? = some s) (w : Value) :
    equal v w = decide (w.text? = some s) := by
  have scalar : equal v w = sameScalar v w := by
    cases v <;> first | rfl | cases text
  have number : v.number? = none := by
    cases v <;> first | rfl | cases text
  rw [scalar]
  unfold sameScalar
  rw [number, text]
  cases count : w.number? with
  | some x =>
    have none : w.text? = none := by
      cases w <;> first | rfl | cases count
    simp [none]
  | none =>
    cases other : w.text? with
    | none => simp
    | some t => simp [eq_comm]

/-- A number with a rank equals what has the same rank, whatever its type. -/
theorem equal_number {x : Number} {r : Double.Rank} (number : v.number? = some x)
    (ranked : x.rank? = some r) : equal v w = true ↔ w.rank? = some r.place := by
  have scalar : equal v w = sameScalar v w := by
    cases v <;> first | rfl | cases number
  rw [scalar, rank?]
  unfold sameScalar
  rw [number]
  cases other : w.number? with
  | none => simp
  | some y =>
    cases ranked' : y.rank? with
    | none => simp [Number.same_of_unranked ranked', ranked']
    | some s => simp [Number.same_eq_rank ranked ranked', ranked', ← Double.Rank.place_inj, eq_comm]

/-- A value without parts equals those that say the same. -/
theorem equal_atom (atom : v.atom? = some a) (w : Value) : equal v w = true ↔ w.atom? = some a := by
  cases a with
  | null =>
    rw [atom?_null_iff.1 atom, equal_null_iff, atom?_null_iff]
  | number r =>
    obtain ⟨x, s, number, ranked, rfl⟩ := exists_number (atom?_number_iff.1 atom)
    rw [equal_number number ranked, atom?_number_iff]
  | text s =>
    rw [equal_text (atom?_text_iff.1 atom), decide_eq_true_iff, atom?_text_iff]

/-- Two mappings with texts as keys are equal if each has the entries of the other. -/
theorem equal_object_iff {fs gs : Fields Value} (own : gs.keys.Nodup) :
    equal (.object fs) (.object gs) = true ↔ Within (.ofFields fs) (.ofFields gs) := by
  rw [equal, Bool.and_eq_true, decide_eq_true_iff, fieldsWithin_iff, Within, Entries.ofFields,
    Entries.ofFields, List.length_map, List.length_map]
  refine and_congr_right' ?_
  simp only [List.forall_mem_map, Fields.get?_eq_some_iff own]
  refine forall₂_congr fun e _ => ⟨?_, ?_⟩
  · rintro ⟨u, inside, same⟩
    exact ⟨_, List.mem_map_of_mem inside, decide_eq_true rfl, same⟩
  · rintro ⟨f, inside, name, same⟩
    obtain ⟨g, there, rfl⟩ := List.mem_map.1 inside
    exact ⟨g.2, of_decide_eq_true name ▸ there, same⟩

/-- Going through the partners of all keys finds what there is. -/
theorem equalList_partners_iff {es fs : Entries} (single : Single es fs) :
    ((partners (es.map Prod.fst) fs).any fun us => equalList (es.map Prod.snd) us) = true ↔
      ∀ e ∈ es, ∃ f ∈ fs, EqualEntries e f := by
  induction es with
  | nil => exact iff_of_true rfl (List.forall_mem_nil _)
  | cons e rest ih =>
    obtain ⟨here, later⟩ := List.forall_mem_cons.1 single
    rw [List.forall_mem_cons, ← ih later, List.map_cons, List.map_cons, partners]
    cases found : fs.find? fun f => equal e.1 f.1 with
    | none =>
      refine iff_of_false nofun ?_
      rintro ⟨⟨f, inside, key, _⟩, _⟩
      exact List.find?_eq_none.1 found f inside key
    | some f =>
      have partner : (∃ g ∈ fs, EqualEntries e g) ↔ equal e.2 f.2 = true := by
        have inside := List.mem_of_find?_eq_some found
        have key : equal e.1 f.1 = true :=
          List.find?_some (p := fun f : Value × Value => equal e.1 f.1) found
        constructor
        · rintro ⟨g, there, key', same⟩
          exact here f inside g there key key' ▸ same
        · exact fun same => ⟨f, inside, key, same⟩
      rw [partner]
      cases partners (rest.map Prod.fst) fs <;> simp [equalList]

/-- Two mappings with any keys are equal if each has the entries of the other. -/
theorem equal_mapping_iff {es fs : Entries} (single : Single es fs) :
    equal (ofEntries es) (ofEntries fs) = true ↔ Within es fs := by
  have pairs : (fs.map Prod.fst).zip (fs.map Prod.snd) = fs := by
    rw [List.zip_map', List.map_id']
  rw [ofEntries, ofEntries, equal, pairs, List.length_map, List.length_map, Bool.and_eq_true,
    decide_eq_true_iff, equalList_partners_iff single, Within]

/-! ## Equality of data -/

/-- Equal data has the same shape. -/
theorem IsData.shape_of_equal (data : IsData v) (same : equal v w = true) : v.shape = w.shape := by
  by_contra other
  cases data with
  | atom atom =>
    have atom' := (equal_atom atom w).1 same
    exact other ((shape_of_atom atom).trans (shape_of_atom atom').symm)
  | list => cases (equal_of_other_shape (by nofun) other).symm.trans same
  | object => cases (equal_of_other_shape (by nofun) other).symm.trans same
  | mapping => cases (equal_of_other_shape (by nofun) other).symm.trans same

/-- Data without parts is an atom. -/
theorem IsData.atom_of_shape (data : IsData v) (plain : v.shape = .plain) : ∃ a, v.atom? = some a := by
  cases data with
  | atom atom => exact ⟨_, atom⟩
  | _ => cases plain

/-- Data of the shape of a list is a list of data. -/
theorem IsData.list_of_shape (data : IsData v) (list : v.shape = .list) :
    ∃ vs, v = .list vs ∧ ∀ v ∈ vs, IsData v := by
  cases data with
  | atom atom => cases (shape_of_atom atom).symm.trans list
  | list each => exact ⟨_, rfl, each⟩
  | _ => cases list

/-- Data of the shape of an object is one, with keys of their own and values that are data. -/
theorem IsData.object_of_shape (data : IsData v) (object : v.shape = .object) :
    ∃ fs : Fields Value, v = .object fs ∧ fs.keys.Nodup ∧ EntriesAre IsData (.ofFields fs) := by
  cases data with
  | atom atom => cases (shape_of_atom atom).symm.trans object
  | object own each =>
    refine ⟨_, rfl, own, List.forall_mem_map.2 fun e inside => ?_⟩
    exact ⟨.atom (a := .text e.1) rfl, each e inside⟩
  | _ => cases object

/-- Data of the shape of a mapping is one, with keys of their own; keys and values are data. -/
theorem IsData.mapping_of_shape (data : IsData v) (mapping : v.shape = .mapping) :
    ∃ es, v = ofEntries es ∧ Own es ∧ EntriesAre IsData es := by
  cases data with
  | atom atom => cases (shape_of_atom atom).symm.trans mapping
  | mapping own keys each => exact ⟨_, rfl, own, fun e inside => ⟨keys e inside, each e inside⟩⟩
  | _ => cases mapping

/-- A value that equality treats alike from both sides, and that equals no two unequal values. -/
structure Lawful (v : Value) : Prop where
  comm : ∀ w, IsData w → equal v w = equal w v
  congr : ∀ w u, IsData w → IsData u → equal v w = true → equal v u = equal w u

/-- For the laws it is enough to look at values of the same shape. -/
theorem lawful_of_shape (data : IsData v)
    (comm : ∀ w, IsData w → w.shape = v.shape → equal v w = equal w v)
    (congr : ∀ w u, IsData w → IsData u → w.shape = v.shape → u.shape = v.shape →
      equal v w = true → equal v u = equal w u) : Lawful v where
  comm := by
    intro w data'
    by_cases same : w.shape = v.shape
    · exact comm w data' same
    · have left : equal v w ≠ true := fun found => same (data.shape_of_equal found).symm
      have right : equal w v ≠ true := fun found => same (data'.shape_of_equal found)
      rw [Bool.eq_false_iff.2 left, Bool.eq_false_iff.2 right]
  congr := by
    intro w u data' data'' found
    have level := (data.shape_of_equal found).symm
    by_cases same : u.shape = v.shape
    · exact congr w u data' data'' level same found
    · have left : equal v u ≠ true := fun found => same (data.shape_of_equal found).symm
      have right : equal w u ≠ true := fun found => same ((data'.shape_of_equal found).symm.trans level)
      rw [Bool.eq_false_iff.2 left, Bool.eq_false_iff.2 right]

/-- Atoms obey the laws of equality. -/
theorem lawful_atom (atom : v.atom? = some a) : Lawful v := by
  refine lawful_of_shape (.atom atom) ?_ ?_
  · intro w data plain
    obtain ⟨b, atom'⟩ := data.atom_of_shape (plain.trans (shape_of_atom atom))
    rw [Bool.eq_iff_iff, equal_atom atom, equal_atom atom', atom, atom', Option.some_inj,
      Option.some_inj, eq_comm]
  · intro w u _ _ _ _ same
    rw [Bool.eq_iff_iff, equal_atom atom, equal_atom ((equal_atom atom w).1 same)]

section Lists

variable {vs ws us : List Value}

/-- Lists are equal in either order if their elements obey the laws. -/
theorem equalList_comm (each : ∀ v ∈ vs, Lawful v) (data : ∀ w ∈ ws, IsData w) :
    equalList vs ws = equalList ws vs := by
  induction vs generalizing ws with
  | nil => cases ws <;> rfl
  | cons v vs ih =>
    cases ws with
    | nil => rfl
    | cons w ws =>
      obtain ⟨here, later⟩ := List.forall_mem_cons.1 each
      obtain ⟨here', later'⟩ := List.forall_mem_cons.1 data
      rw [equalList, equalList, here.comm w here', ih later later']

/-- Equal lists equal the same lists. -/
theorem equalList_congr (each : ∀ v ∈ vs, Lawful v) (data : ∀ w ∈ ws, IsData w)
    (data' : ∀ u ∈ us, IsData u) (same : equalList vs ws = true) :
    equalList vs us = equalList ws us := by
  induction vs generalizing ws us with
  | nil =>
    cases ws with
    | nil => rfl
    | cons w ws => cases same
  | cons v vs ih =>
    cases ws with
    | nil => cases same
    | cons w ws =>
      cases us with
      | nil => rfl
      | cons u us =>
        obtain ⟨first, others⟩ := (Bool.and_eq_true _ _).mp same
        obtain ⟨here, later⟩ := List.forall_mem_cons.1 each
        obtain ⟨here', later'⟩ := List.forall_mem_cons.1 data
        obtain ⟨here'', later''⟩ := List.forall_mem_cons.1 data'
        rw [equalList, equalList, here.congr w u here' here'' first, ih later later' later'' others]

/-- A list obeys the laws if its elements do. -/
theorem lawful_list (data : ∀ v ∈ vs, IsData v) (each : ∀ v ∈ vs, Lawful v) :
    Lawful (.list vs) := by
  refine lawful_of_shape (.list data) ?_ ?_
  · intro w data' level
    obtain ⟨ws, rfl, items⟩ := data'.list_of_shape level
    exact equalList_comm each items
  · intro w u data' data'' level level' same
    obtain ⟨ws, rfl, items⟩ := data'.list_of_shape level
    obtain ⟨us, rfl, items'⟩ := data''.list_of_shape level'
    exact equalList_congr each items items' same

end Lists

section Mappings

variable {es fs gs : Entries} {e f g : Value × Value}

/-- Texts that are keys once are keys of their own. -/
theorem own_ofFields {fs : Fields Value} (own : fs.keys.Nodup) : Own (.ofFields fs) :=
  List.pairwise_map.2 ((List.pairwise_map.1 own).imp fun differ => decide_eq_false differ)

/-- Of two entries with equal keys, in a mapping with keys of their own, there is only one. -/
theorem Own.eq (own : Own es) (here : e ∈ es) (there : f ∈ es) (same : equal e.1 f.1 = true)
    (same' : equal f.1 e.1 = true) : e = f := by
  have apart : es.Pairwise fun e f => equal e.1 f.1 = false ∨ equal f.1 e.1 = false :=
    own.imp .inl
  have : Std.Symm fun e f : Value × Value => equal e.1 f.1 = false ∨ equal f.1 e.1 = false :=
    ⟨fun _ _ => Or.symm⟩
  by_contra differ
  rcases apart.forall here there differ with unequal | unequal
  · cases unequal.symm.trans same
  · cases unequal.symm.trans same'

/-- Entries equal to one have equal keys. -/
theorem Lawful.keys_equal (lawful : Lawful e.1) (data : IsData f.1) (data' : IsData g.1)
    (same : equal e.1 f.1 = true) (same' : equal e.1 g.1 = true) : equal f.1 g.1 = true :=
  (lawful.congr _ _ data data' same).symm.trans same'

/-- A key equals one key of a mapping with keys of their own at most. -/
theorem single_of_lawful (each : EntriesAre Lawful es) (data : EntriesAre IsData fs) (own : Own fs) :
    Single es fs := by
  intro e here f there g there' same same'
  have lawful := (each e here).1
  have first := (data f there).1
  have second := (data g there').1
  exact own.eq there there' (lawful.keys_equal first second same same')
    (lawful.keys_equal second first same' same)

/-- The same, seen from the other mapping. -/
theorem single_to_lawful (each : EntriesAre Lawful es) (data : EntriesAre IsData es)
    (data' : EntriesAre IsData fs) (own : Own es) : Single fs es := by
  intro f there e here d here' same same'
  have back := ((each e here).1.comm f.1 (data' f there).1).trans same
  have back' := ((each d here').1.comm f.1 (data' f there).1).trans same'
  refine own.eq here here' ?_ ?_
  · exact ((each e here).1.congr f.1 d.1 (data' f there).1 (data d here').1 back).trans same'
  · exact ((each d here').1.congr f.1 e.1 (data' f there).1 (data e here).1 back').trans same

/-- If all entries of a mapping are reached from a third one, the same holds of two mappings beside
it. -/
theorem single_between (each : EntriesAre Lawful es) (data' : EntriesAre IsData fs)
    (data'' : EntriesAre IsData gs) (own : Own gs) (reached : ∀ f ∈ fs, ∃ e ∈ es, EqualEntries e f) :
    Single fs gs := by
  intro f there g last d last' same same'
  obtain ⟨e, here, found, -⟩ := reached f there
  have lawful := (each e here).1
  have left := (lawful.congr f.1 g.1 (data' f there).1 (data'' g last).1 found).trans same
  have right := (lawful.congr f.1 d.1 (data' f there).1 (data'' d last').1 found).trans same'
  exact single_of_lawful each data'' own e here g last d last' left right

/-- All entries are found that those of the other mapping equal. -/
theorem exists_equal (each : EntriesAre Lawful es) (data : EntriesAre IsData es)
    (data' : EntriesAre IsData fs) (own : Own es) (within : Within es fs) :
    ∀ f ∈ fs, ∃ e ∈ es, EqualEntries e f := by
  refine exists_matched within.1 ?_ within.2
  refine List.Pairwise.imp_of_mem (fun {e d} here there differ f inside same same' => ?_) own
  have back := ((each d there).1.comm f.1 (data' f inside).1).symm.trans same'.1
  have found := ((each e here).1.congr f.1 d.1 (data' f inside).1 (data d there).1 same.1).trans back
  cases differ.symm.trans found

/-- Equal entries are equal in either order. -/
theorem EqualEntries.symm (lawful : Lawful e.1 ∧ Lawful e.2) (data : IsData f.1 ∧ IsData f.2) :
    EqualEntries e f ↔ EqualEntries f e := by
  rw [EqualEntries, EqualEntries, lawful.1.comm f.1 data.1, lawful.2.comm f.2 data.2]

/-- Equal entries equal the same entries. -/
theorem EqualEntries.congr (lawful : Lawful e.1 ∧ Lawful e.2) (data : IsData f.1 ∧ IsData f.2)
    (data' : IsData g.1 ∧ IsData g.2) (same : EqualEntries e f) :
    EqualEntries e g ↔ EqualEntries f g := by
  rw [EqualEntries, EqualEntries, lawful.1.congr _ _ data.1 data'.1 same.1,
    lawful.2.congr _ _ data.2 data'.2 same.2]

/-- A mapping is within another exactly if the other is within it, as both have as many entries. -/
theorem within_comm (each : EntriesAre Lawful es) (data : EntriesAre IsData es)
    (data' : EntriesAre IsData fs) (own : Own es) (own' : Own fs) : Within es fs ↔ Within fs es := by
  constructor
  · intro within
    refine ⟨within.1.symm, fun f there => ?_⟩
    obtain ⟨e, here, same⟩ := exists_equal each data data' own within f there
    exact ⟨e, here, (EqualEntries.symm (each e here) (data' f there)).1 same⟩
  · rintro ⟨count, found⟩
    refine ⟨count.symm, fun e here => ?_⟩
    have apart : fs.Pairwise fun f g => ∀ e ∈ es, EqualEntries f e → ¬ EqualEntries g e := by
      refine List.Pairwise.imp_of_mem (fun {f g} there there' differ e here same same' => ?_) own'
      rw [← EqualEntries.symm (each e here) (data' f there)] at same
      rw [← EqualEntries.symm (each e here) (data' g there')] at same'
      cases differ.symm.trans ((each e here).1.keys_equal (data' f there).1 (data' g there').1
        same.1 same'.1)
    obtain ⟨f, there, same⟩ := exists_matched count apart found e here
    exact ⟨f, there, (EqualEntries.symm (each e here) (data' f there)).2 same⟩

/-- Mappings of which one is within the other are within the same mappings. -/
theorem within_congr (each : EntriesAre Lawful es) (data : EntriesAre IsData es)
    (data' : EntriesAre IsData fs) (data'' : EntriesAre IsData gs) (own : Own es)
    (within : Within es fs) : Within es gs ↔ Within fs gs := by
  refine and_congr (by rw [within.1]) ⟨fun found f there => ?_, fun found e here => ?_⟩
  · obtain ⟨e, here, same⟩ := exists_equal each data data' own within f there
    obtain ⟨g, last, same'⟩ := found e here
    exact ⟨g, last, (same.congr (each e here) (data' f there) (data'' g last)).1 same'⟩
  · obtain ⟨f, there, same⟩ := within.2 e here
    obtain ⟨g, last, same'⟩ := found f there
    exact ⟨g, last, (same.congr (each e here) (data' f there) (data'' g last)).2 same'⟩

/-- An object obeys the laws if its values do. -/
theorem lawful_object {fs : Fields Value} (data : ∀ e ∈ fs, IsData e.2) (own : fs.keys.Nodup)
    (each : ∀ e ∈ fs, Lawful e.2) : Lawful (.object fs) := by
  have data' : EntriesAre IsData (.ofFields fs) :=
    List.forall_mem_map.2 fun e inside => ⟨.atom (a := .text e.1) rfl, data e inside⟩
  have lawful : EntriesAre Lawful (.ofFields fs) :=
    List.forall_mem_map.2 fun e inside => ⟨lawful_atom (a := .text e.1) rfl, each e inside⟩
  have ownF := own_ofFields own
  refine lawful_of_shape (.object own data) ?_ ?_
  · intro w dataW level
    obtain ⟨gs, rfl, own', items⟩ := dataW.object_of_shape level
    rw [Bool.eq_iff_iff, equal_object_iff own', equal_object_iff own,
      within_comm lawful data' items ownF (own_ofFields own')]
  · intro w u dataW dataU level level' same
    obtain ⟨gs, rfl, own', items⟩ := dataW.object_of_shape level
    obtain ⟨hs, rfl, own'', items'⟩ := dataU.object_of_shape level'
    rw [Bool.eq_iff_iff, equal_object_iff own'', equal_object_iff own'',
      within_congr lawful data' items items' ownF ((equal_object_iff own').1 same)]

/-- A mapping obeys the laws if its keys and values do. -/
theorem lawful_mapping (data : EntriesAre IsData es) (own : Own es) (lawful : EntriesAre Lawful es) :
    Lawful (ofEntries es) := by
  have isData : IsData (ofEntries es) :=
    .mapping own (fun e inside => (data e inside).1) fun e inside => (data e inside).2
  refine lawful_of_shape isData ?_ ?_
  · intro w dataW level
    obtain ⟨fs, rfl, own', items⟩ := dataW.mapping_of_shape level
    rw [Bool.eq_iff_iff, equal_mapping_iff (single_of_lawful lawful items own'),
      equal_mapping_iff (single_to_lawful lawful data items own),
      within_comm lawful data items own own']
  · intro w u dataW dataU level level' same
    obtain ⟨fs, rfl, own', items⟩ := dataW.mapping_of_shape level
    obtain ⟨gs, rfl, own'', items'⟩ := dataU.mapping_of_shape level'
    have within := (equal_mapping_iff (single_of_lawful lawful items own')).1 same
    have reached := exists_equal lawful data items own within
    rw [Bool.eq_iff_iff, equal_mapping_iff (single_of_lawful lawful items' own''),
      equal_mapping_iff (single_between lawful items items' own'' reached),
      within_congr lawful data items items' own within]

end Mappings

/-- Equality of data is an equivalence. -/
theorem IsData.lawful (data : IsData v) : Lawful v := by
  induction data with
  | atom atom => exact lawful_atom atom
  | list data ih => exact lawful_list data ih
  | object own data ih => exact lawful_object data own ih
  | mapping own keys each ihKeys ih =>
    exact lawful_mapping (fun e inside => ⟨keys e inside, each e inside⟩) own
      fun e inside => ⟨ihKeys e inside, ih e inside⟩

end Value

end ShapeContract
