import ShapeContract.Proofs.Fields
import ShapeContract.Proofs.Sorting
import ShapeContract.Proofs.Value.Canonical

/-!
# Keys of plain overrides

Overrides of plain data always have a key, and two of them have one key exactly if they mean the
same: the same flags, the same paths in any order, the same appended data up to the order of keys.
-/

set_option autoImplicit false

namespace ShapeContract

namespace Value

mutual

/-- Plain data can be written into a key, so the key never fails on it. -/
theorem writable_of_isPlain : ∀ v : Value, IsPlain v → v.writable = true
  | .null, _ => rfl
  | .bool _, _ => rfl
  | .int _, plain => decide_eq_true plain
  | .float _, _ => rfl
  | .str _, _ => rfl
  | .list vs, plain => writableAll_of_arePlain vs plain
  | .object fs, plain => writableFields_of_arePlain fs plain.2

theorem writableAll_of_arePlain : ∀ vs : List Value, ArePlain vs → writableAll vs = true
  | [], _ => rfl
  | v :: vs, plain => by
    rw [writableAll, writable_of_isPlain v plain.1, writableAll_of_arePlain vs plain.2]
    rfl

theorem writableFields_of_arePlain : ∀ fs : List (String × Value), FieldsArePlain fs →
    writableFields fs = true
  | [], _ => rfl
  | (_, v) :: fs, plain => by
    rw [writableFields, writable_of_isPlain v plain.1, writableFields_of_arePlain fs plain.2]
    rfl

end

mutual

/-- Plain data stands in a key as it is. -/
theorem plain_of_isPlain : ∀ v : Value, IsPlain v → v.plain = v
  | .null, _ => rfl
  | .bool _, _ => rfl
  | .int _, _ => rfl
  | .float _, _ => rfl
  | .str _, _ => rfl
  | .list vs, plain => by rw [Value.plain, plainAll_of_arePlain vs plain]
  | .object fs, plain => by rw [Value.plain, plainFields_of_arePlain fs plain.2]

/-- Writing down the items of a plain list changes nothing … -/
theorem plainAll_of_arePlain : ∀ vs : List Value, ArePlain vs → plainAll vs = vs
  | [], _ => rfl
  | v :: vs, plain => by
    rw [plainAll, plain_of_isPlain v plain.1, plainAll_of_arePlain vs plain.2]

/-- … nor does writing down the entries of a plain mapping. -/
theorem plainFields_of_arePlain : ∀ fs : List (String × Value), FieldsArePlain fs →
    plainFields fs = fs
  | [], _ => rfl
  | (_, v) :: fs, plain => by
    rw [plainFields, plain_of_isPlain v plain.1, plainFields_of_arePlain fs plain.2]

end

/-- Equal mappings agree under every name, whatever the order of their entries. -/
theorem get?_of_sameFields {fs gs : Fields Value} (same : SameFields fs gs) (name : String)
    (x : Value) (found : fs.get? name = some x) : ∃ y, gs.get? name = some y ∧ SameData x y := by
  induction fs generalizing gs with
  | nil => cases found
  | cons e rest ih =>
    obtain ⟨k, v⟩ := e
    obtain ⟨w, hs, rfl, first, others⟩ := same
    rw [Fields.get?_cons] at found ⊢
    by_cases here : k = name
    · rw [if_pos here, Option.some.injEq] at found
      exact ⟨w, if_pos here, found ▸ first⟩
    · rw [if_neg here] at found ⊢
      exact ih others found

/-- Mappings that are the same data have the same data under every name. -/
theorem get?_of_sameData {fs gs : Fields Value} (own : gs.keys.Nodup)
    (same : SameData (.object fs) (.object gs)) (name : String) (x : Value)
    (found : fs.get? name = some x) : ∃ y, gs.get? name = some y ∧ SameData x y := by
  obtain ⟨_, hs, whole, moved, fields⟩ := same
  cases whole
  obtain ⟨y, there, data⟩ := get?_of_sameFields fields name x found
  exact ⟨y, (Fields.get?_perm own moved.symm name).trans there, data⟩

/-- The names of a record are compared as texts. -/
theorem lt?_str (s t : String) : lt? (.str s) (.str t) = .ok (decide (s < t)) := by
  simp [lt?, before?, scalarBefore?, number?]

end Value

namespace Overrides

/-- A path list as it stands in a key. -/
def pathsValue (ps : List String) : Value := if ps.isEmpty then .null else .list (ps.map .str)

/-- Sorted path lists of texts, always found. -/
theorem keyList_texts (ps : List String) :
    ∃ qs : List String, qs.Perm ps ∧ qs.Pairwise (· ≤ ·) ∧
      keyList (ps.map .str) = .ok (pathsValue qs) := by
  have compares : ∀ s t : String, Value.lt? (.str s) (.str t) = .ok (decide (s < t)) :=
    fun s t => Value.lt?_str s t
  obtain ⟨qs, perm, inOrder, sorted⟩ := Sorting.sort_spec compares ps
  refine ⟨qs, perm, inOrder, ?_⟩
  simp only [keyList, sorted, bind, Except.bind, pure, Except.pure, pathsValue, List.isEmpty_map]

/-- Lists of texts are the same data when they are the same texts. -/
theorem sameItems_texts (ps qs : List String) :
    Value.SameItems (ps.map .str) (qs.map .str) ↔ ps = qs := by
  induction ps generalizing qs with
  | nil =>
    constructor
    · intro same
      exact (List.map_eq_nil_iff.1 same).symm
    · rintro rfl
      rfl
  | cons p ps ih =>
    constructor
    · rintro ⟨x, xs, shape, same, others⟩
      obtain ⟨q, qs, rfl, rfl, rfl⟩ := List.map_eq_cons_iff.1 shape
      cases same
      rw [(ih qs).1 others]
    · rintro rfl
      exact ⟨.str p, ps.map .str, rfl, rfl, (ih ps).2 rfl⟩

/-- So are path lists as the key writes them, the empty one included. -/
theorem sameData_pathsValue (ps qs : List String) :
    Value.SameData (pathsValue ps) (pathsValue qs) ↔ ps = qs := by
  cases ps with
  | nil =>
    cases qs with
    | nil => exact iff_of_true rfl rfl
    | cons q qs => exact iff_of_false (fun same => nomatch same) (fun same => nomatch same)
  | cons p ps =>
    cases qs with
    | nil =>
      refine iff_of_false ?_ (fun same => nomatch same)
      rintro ⟨_, whole, _⟩
      cases whole
    | cons q qs =>
      rw [← sameItems_texts]
      constructor
      · rintro ⟨ws, whole, items⟩
        cases whole
        exact items
      · intro items
        exact ⟨_, rfl, items⟩

/-- The appended definitions as they stand in a key. -/
def appendedValue (appended : Fields Value) : Value :=
  if appended.isEmpty then .null else .object appended

/-- The appended definitions enter the key as data, in no order of their own. -/
theorem sameData_appendedValue (fs gs : Fields Value) :
    Value.SameData (appendedValue fs) (appendedValue gs) ↔
      Value.SameData (.object fs) (.object gs) := by
  cases fs with
  | nil =>
    cases gs with
    | nil => exact iff_of_true rfl ⟨[], [], rfl, List.Perm.nil, rfl⟩
    | cons g gs =>
      refine iff_of_false (fun same => nomatch same) ?_
      rintro ⟨_, hs, whole, moved, rfl⟩
      cases whole
      exact absurd moved.symm.eq_nil (List.cons_ne_nil _ _)
  | cons f fs =>
    cases gs with
    | nil =>
      obtain ⟨k, v⟩ := f
      refine iff_of_false ?_ ?_
      · rintro ⟨_, _, whole, _⟩
        cases whole
      · rintro ⟨_, hs, whole, moved, x, tail, rfl, _⟩
        cases whole
        exact absurd moved.eq_nil (List.cons_ne_nil _ _)
    | cons g gs => exact Iff.rfl

/-- The record whose text a key is. -/
def keyRecord (included excluded optional required : List String) (appended : Fields Value)
    (opts : ValidatorOptions) : Fields Value :=
  [("include", pathsValue included), ("exclude", pathsValue excluded),
    ("optional", pathsValue optional), ("required", pathsValue required),
    ("append", appendedValue appended), ("allowUnknown", .bool opts.allowUnknown),
    ("coerceTypes", .bool opts.coerceTypes)]

theorem isPlain_pathsValue (ps : List String) : Value.IsPlain (pathsValue ps) := by
  unfold pathsValue
  split
  · trivial
  · refine (Value.arePlain_iff _).2 ?_
    intro v inside
    obtain ⟨p, _, rfl⟩ := List.mem_map.1 inside
    trivial

theorem isPlain_appendedValue {appended : Fields Value} (plain : Value.IsPlain (.object appended)) :
    Value.IsPlain (appendedValue appended) := by
  unfold appendedValue
  split
  · trivial
  · exact plain

/-- The six entries of the key's record have six names. -/
theorem nodup_keyRecord (included excluded optional required : List String)
    (appended : Fields Value) (opts : ValidatorOptions) :
    (keyRecord included excluded optional required appended opts).keys.Nodup := by
  show ["include", "exclude", "optional", "required", "append", "allowUnknown",
    "coerceTypes"].Nodup
  decide

/-- The record is plain when the appended definitions are. -/
theorem isPlain_keyRecord (included excluded optional required : List String)
    {appended : Fields Value} (plain : Value.IsPlain (.object appended)) (opts : ValidatorOptions) :
    Value.IsPlain (.object (keyRecord included excluded optional required appended opts)) := by
  refine ⟨nodup_keyRecord _ _ _ _ _ _, ?_⟩
  exact ⟨isPlain_pathsValue _, isPlain_pathsValue _, isPlain_pathsValue _, isPlain_pathsValue _,
    isPlain_appendedValue plain, trivial, trivial, trivial⟩

/-- Records of keys are the same data exactly if they agree entry by entry. -/
theorem sameData_keyRecord (included excluded optional required included' excluded' optional'
    required' : List String) (appended appended' : Fields Value) (opts opts' : ValidatorOptions) :
    Value.SameData (.object (keyRecord included excluded optional required appended opts))
        (.object (keyRecord included' excluded' optional' required' appended' opts')) ↔
      (opts.coerceTypes = opts'.coerceTypes ∧ opts.allowUnknown = opts'.allowUnknown) ∧
        included = included' ∧ excluded = excluded' ∧ optional = optional' ∧
        required = required' ∧ Value.SameData (.object appended) (.object appended') := by
  rw [← sameData_pathsValue included, ← sameData_pathsValue excluded,
    ← sameData_pathsValue optional, ← sameData_pathsValue required, ← sameData_appendedValue appended]
  have flags : ∀ b c : Bool, Value.SameData (.bool b) (.bool c) ↔ b = c := by
    intro b c
    exact Value.bool.injEq b c ▸ Iff.rfl
  constructor
  · intro same
    have entry : ∀ name x y,
        (keyRecord included excluded optional required appended opts).get? name = some x →
        (keyRecord included' excluded' optional' required' appended' opts').get? name = some y →
        Value.SameData x y := by
      intro name x y found there
      obtain ⟨z, foundZ, data⟩ := Value.get?_of_sameData (nodup_keyRecord _ _ _ _ _ _) same name x found
      rw [there, Option.some.injEq] at foundZ
      exact foundZ ▸ data
    refine ⟨⟨(flags _ _).1 ?_, (flags _ _).1 ?_⟩, ?_, ?_, ?_, ?_, ?_⟩
    · exact entry "coerceTypes" _ _ rfl rfl
    · exact entry "allowUnknown" _ _ rfl rfl
    · exact entry "include" _ _ rfl rfl
    · exact entry "exclude" _ _ rfl rfl
    · exact entry "optional" _ _ rfl rfl
    · exact entry "required" _ _ rfl rfl
    · exact entry "append" _ _ rfl rfl
  · rintro ⟨⟨coerce, unknown⟩, inc, exc, opt, req, app⟩
    refine ⟨_, _, rfl, List.Perm.refl _, (Value.sameFields_iff _ _).2 ?_⟩
    exact .cons ⟨rfl, inc⟩ (.cons ⟨rfl, exc⟩ (.cons ⟨rfl, opt⟩ (.cons ⟨rfl, req⟩
      (.cons ⟨rfl, app⟩ (.cons ⟨rfl, (flags _ _).2 unknown⟩
        (.cons ⟨rfl, (flags _ _).2 coerce⟩ .nil))))))

end Overrides

/-- Overrides of plain data, as they are understood. -/
structure PlainOverrides where
  included : List String
  excluded : List String
  optional : List String
  required : List String
  appended : Fields Value
  plain : Value.IsPlain (.object appended)

namespace PlainOverrides

/-- A path list as it can be given: absent, empty or null, or anything that walks over texts. -/
inductive GivesPaths (fs : Fields Value) (name : String) : List String → Prop
  | absent (missing : fs.get? name = none) : GivesPaths fs name []
  | empty (v : Value) (given : fs.get? name = some v) (falsy : v.truthy = false) :
    GivesPaths fs name []
  | walk (v : Value) (ps : List String) (given : fs.get? name = some v) (truthy : v.truthy = true)
    (texts : v.items? = some (ps.map .str)) : GivesPaths fs name ps

/-- Appended definitions as they can be given: absent, empty or null, or a mapping. -/
inductive GivesAppended (fs : Fields Value) : Fields Value → Prop
  | absent (missing : fs.get? "append" = none) : GivesAppended fs []
  | empty (v : Value) (given : fs.get? "append" = some v) (falsy : v.truthy = false) :
    GivesAppended fs []
  | mapping (es : Fields Value) (given : fs.get? "append" = some (.object es)) :
    GivesAppended fs es

/-- What overrides are given as: null if they are empty, or a mapping. -/
inductive GivenAs (o : PlainOverrides) : Value → Prop
  | null (included : o.included = []) (excluded : o.excluded = []) (optional : o.optional = [])
    (required : o.required = []) (appended : o.appended = []) : GivenAs o .null
  | mapping (fs : Fields Value) (included : GivesPaths fs "include" o.included)
    (excluded : GivesPaths fs "exclude" o.excluded)
    (optional : GivesPaths fs "optional" o.optional)
    (required : GivesPaths fs "required" o.required) (appended : GivesAppended fs o.appended) :
    GivenAs o (.object fs)

/-- The overrides as the program keeps them. -/
def overrides (o : PlainOverrides) : Overrides :=
  ⟨o.included.map .str, o.excluded.map .str, o.optional.map .str, o.required.map .str, o.appended⟩

/-- Absent, `None` or a list of texts: each is read as the paths it gives. -/
theorem pathList_of_gives {fs : Fields Value} {name : String} {ps : List String}
    (gives : GivesPaths fs name ps) :
    Overrides.pathList (fs.get? name) = .ok (ps.map .str) := by
  cases gives with
  | absent missing => rw [missing]; rfl
  | empty v given falsy => simp [Overrides.pathList, given, falsy]
  | walk v ps given truthy texts => simp [Overrides.pathList, given, truthy, Value.items, texts]

/-- Absent, `None` or a mapping: each is read as the definitions it gives. -/
theorem appendEntries_of_gives {fs es : Fields Value} (own : es.keys.Nodup)
    (gives : GivesAppended fs es) : Overrides.appendEntries (fs.get? "append") = .ok es := by
  cases gives with
  | absent missing => rw [missing]; rfl
  | empty v given falsy => simp [Overrides.appendEntries, given, falsy]
  | mapping es given =>
    have names : (Entries.ofFields es).map (fun e => (e.1.text?.getD e.1.display, e.2)) = es := by
      rw [Entries.ofFields, List.map_map]
      exact List.map_id _
    cases es with
    | nil => rw [given]; rfl
    | cons e es =>
      rw [given]
      show Except.ok (Fields.ofList ((Entries.ofFields (e :: es)).map _)) = _
      rw [names, Fields.ofList_of_nodup _ own]

/-- Plain overrides are read, however they are given. -/
theorem ofValue_of_givenAs {o : PlainOverrides} {v : Value} (given : o.GivenAs v) :
    Overrides.ofValue v = .ok o.overrides := by
  cases given with
  | null included excluded optional required appended =>
    simp [Overrides.ofValue, overrides, included, excluded, optional, required, appended]
  | mapping fs included excluded optional required appended =>
    simp only [Overrides.ofValue, pathList_of_gives included, pathList_of_gives excluded,
      pathList_of_gives optional, pathList_of_gives required,
      appendEntries_of_gives o.plain.1 appended, bind, Except.bind, pure, Except.pure]
    rfl

theorem writable_values (o : PlainOverrides) : o.overrides.values.all Value.writable = true := by
  have texts : ∀ ps : List String, (ps.map Value.str).all Value.writable = true := by
    intro ps
    rw [List.all_map]
    exact List.all_eq_true.2 fun _ _ => rfl
  have definitions : (o.appended.map Prod.snd).all Value.writable = true := by
    rw [List.all_map]
    refine List.all_eq_true.2 fun e inside => ?_
    exact Value.writable_of_isPlain e.2 ((Value.fieldsArePlain_iff _).1 o.plain.2 e inside)
  simp only [Overrides.values, overrides, List.all_append, texts, definitions, Bool.and_self]

/-- Plain overrides have a key: the text of a record with sorted path lists. -/
theorem key_overrides (o : PlainOverrides) (opts : ValidatorOptions) :
    ∃ included excluded optional required : List String,
      (included.Perm o.included ∧ included.Pairwise (· ≤ ·)) ∧
      (excluded.Perm o.excluded ∧ excluded.Pairwise (· ≤ ·)) ∧
      (optional.Perm o.optional ∧ optional.Pairwise (· ≤ ·)) ∧
      (required.Perm o.required ∧ required.Pairwise (· ≤ ·)) ∧
      o.overrides.key opts = .ok ((Value.object (Overrides.keyRecord included excluded optional
        required o.appended opts)).json .canonical) := by
  obtain ⟨inc, permI, orderI, keyI⟩ := Overrides.keyList_texts o.included
  obtain ⟨exc, permE, orderE, keyE⟩ := Overrides.keyList_texts o.excluded
  obtain ⟨opt, permO, orderO, keyO⟩ := Overrides.keyList_texts o.optional
  obtain ⟨req, permR, orderR, keyR⟩ := Overrides.keyList_texts o.required
  refine ⟨inc, exc, opt, req, ⟨permI, orderI⟩, ⟨permE, orderE⟩, ⟨permO, orderO⟩,
    ⟨permR, orderR⟩, ?_⟩
  have writable := writable_values o
  have appended : (Value.object o.appended).plain = .object o.appended :=
    Value.plain_of_isPlain _ o.plain
  unfold Overrides.key
  rw [writable]
  simp only [overrides, keyI, keyE, keyO, keyR, bind, Except.bind, pure, Except.pure, appended,
    Bool.not_true, Bool.false_eq_true, if_false]
  rfl

/-- Sorted lists are equal exactly when the lists they came from are permutations of each other. -/
theorem eq_iff_perm {ps qs ps' qs' : List String} (permP : ps'.Perm ps)
    (orderP : ps'.Pairwise (· ≤ ·)) (permQ : qs'.Perm qs) (orderQ : qs'.Pairwise (· ≤ ·)) :
    ps' = qs' ↔ ps.Perm qs := by
  constructor
  · rintro rfl
    exact permP.symm.trans permQ
  · intro moved
    have perm := (permP.trans moved).trans permQ.symm
    exact perm.eq_of_pairwise (fun _ _ _ _ up down => le_antisymm up down) orderP orderQ

/-- The same paths in any order, and the same appended data up to the order of keys. -/
structure SameMeaning (o p : PlainOverrides) : Prop where
  included : o.included.Perm p.included
  excluded : o.excluded.Perm p.excluded
  optional : o.optional.Perm p.optional
  required : o.required.Perm p.required
  appended : Value.SameData (.object o.appended) (.object p.appended)

/-- Two keys are equal exactly when the options are and the overrides mean the same. -/
theorem key_eq_iff (o p : PlainOverrides) (opts opts' : ValidatorOptions) :
    ∃ key key', o.overrides.key opts = .ok key ∧ p.overrides.key opts' = .ok key' ∧
      (key = key' ↔ (opts.coerceTypes = opts'.coerceTypes ∧
        opts.allowUnknown = opts'.allowUnknown) ∧ SameMeaning o p) := by
  obtain ⟨inc, exc, opt, req, sortI, sortE, sortO, sortR, key⟩ := key_overrides o opts
  obtain ⟨inc', exc', opt', req', sortI', sortE', sortO', sortR', key'⟩ := key_overrides p opts'
  refine ⟨_, _, key, key', ?_⟩
  rw [Value.json_eq_iff (Overrides.isPlain_keyRecord _ _ _ _ o.plain _)
    (Overrides.isPlain_keyRecord _ _ _ _ p.plain _), Overrides.sameData_keyRecord,
    eq_iff_perm sortI.1 sortI.2 sortI'.1 sortI'.2, eq_iff_perm sortE.1 sortE.2 sortE'.1 sortE'.2,
    eq_iff_perm sortO.1 sortO.2 sortO'.1 sortO'.2, eq_iff_perm sortR.1 sortR.2 sortR'.1 sortR'.2]
  constructor
  · rintro ⟨flags, inc, exc, opt, req, app⟩
    exact ⟨flags, inc, exc, opt, req, app⟩
  · rintro ⟨flags, same⟩
    exact ⟨flags, same.included, same.excluded, same.optional, same.required, same.appended⟩

/-- **Plain overrides have a key, and one key exactly if they mean the same**: the same flags, the
same paths in any order, the same appended data up to the order of keys at every depth. What is
absent, null or empty counts as empty; the two zeros among doubles are different data. -/
theorem keyOf_eq_iff {o p : PlainOverrides} {v w options options' : Value}
    {opts opts' : ValidatorOptions} (givenO : o.GivenAs v) (givenP : p.GivenAs w)
    (read : ValidatorOptions.ofValue options = .ok opts)
    (read' : ValidatorOptions.ofValue options' = .ok opts') :
    ∃ key key', Overrides.keyOf v options = .ok key ∧ Overrides.keyOf w options' = .ok key' ∧
      (key = key' ↔
        (opts.coerceTypes = opts'.coerceTypes ∧ opts.allowUnknown = opts'.allowUnknown) ∧
        o.included.Perm p.included ∧ o.excluded.Perm p.excluded ∧ o.optional.Perm p.optional ∧
        o.required.Perm p.required ∧
        Value.SameData (.object o.appended) (.object p.appended)) := by
  obtain ⟨key, key', hasKey, hasKey', same⟩ := key_eq_iff o p opts opts'
  have first : Overrides.keyOf v options = o.overrides.key opts := by
    simp only [Overrides.keyOf, ofValue_of_givenAs givenO, read, bind, Except.bind]
  have second : Overrides.keyOf w options' = p.overrides.key opts' := by
    simp only [Overrides.keyOf, ofValue_of_givenAs givenP, read', bind, Except.bind]
  refine ⟨key, key', first.trans hasKey, second.trans hasKey', same.trans (and_congr_right' ?_)⟩
  constructor
  · rintro ⟨inc, exc, opt, req, app⟩
    exact ⟨inc, exc, opt, req, app⟩
  · rintro ⟨inc, exc, opt, req, app⟩
    exact ⟨inc, exc, opt, req, app⟩

/-- Two included paths and one appended number, with the keys of its definition in some order. -/
def withBound (included : List String) (definition : Fields Value)
    (plain : Value.IsPlain (.object definition)) : PlainOverrides where
  included := included
  excluded := []
  optional := []
  required := []
  appended := [("p", .object definition)]
  plain := ⟨List.nodup_singleton _, plain, trivial⟩

/-- Permuted paths and reordered entries give one key. -/
theorem keyOf_reordered :
    ∃ key, Overrides.keyOf
        (.object [("include", .list [.str "a", .str "b"]),
          ("append", .object [("p", .object [("type", .str "number"), ("min", .int 1)])])])
        .null = .ok key ∧
      Overrides.keyOf
        (.object [("append", .object [("p", .object [("min", .int 1), ("type", .str "number")])]),
          ("exclude", .null), ("include", .tuple [.str "b", .str "a"])])
        (.object []) = .ok key := by
  have bound : Value.IsPlain (.int 1) := by
    show (1 : Int).natAbs < Value.integerLimit
    decide +kernel
  let o := withBound ["a", "b"] [("type", .str "number"), ("min", .int 1)]
    ⟨by decide, trivial, bound, trivial⟩
  let p := withBound ["b", "a"] [("min", .int 1), ("type", .str "number")]
    ⟨by decide, bound, trivial, trivial⟩
  have givenO := GivenAs.mapping (o := o)
    [("include", .list [.str "a", .str "b"]),
      ("append", .object [("p", .object [("type", .str "number"), ("min", .int 1)])])]
    (.walk _ ["a", "b"] rfl rfl rfl) (.absent rfl) (.absent rfl) (.absent rfl) (.mapping _ rfl)
  have givenP := GivenAs.mapping (o := p)
    [("append", .object [("p", .object [("min", .int 1), ("type", .str "number")])]),
      ("exclude", .null), ("include", .tuple [.str "b", .str "a"])]
    (.walk _ ["b", "a"] rfl rfl rfl) (.empty .null rfl rfl) (.absent rfl) (.absent rfl)
    (.mapping _ rfl)
  have definitions : Value.SameData (.object o.appended) (.object p.appended) :=
    ⟨p.appended, p.appended, rfl, List.Perm.refl _, _, [], rfl,
      ⟨_, [("type", .str "number"), ("min", .int 1)], rfl, List.Perm.swap _ _ [],
        _, _, rfl, rfl, _, _, rfl, rfl, rfl⟩, rfl⟩
  have read : ValidatorOptions.ofValue .null = .ok {} := rfl
  have read' : ValidatorOptions.ofValue (.object []) = .ok {} := rfl
  obtain ⟨key, key', first, second, same⟩ := keyOf_eq_iff givenO givenP read read'
  have equal : key = key' := same.2 ⟨⟨rfl, rfl⟩, List.Perm.swap "b" "a" [], .refl _, .refl _,
    .refl _, definitions⟩
  exact ⟨key, first, equal ▸ second⟩

end PlainOverrides

end ShapeContract
