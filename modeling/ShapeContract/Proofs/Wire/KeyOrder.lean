import ShapeContract.Proofs.Value.Shuffled
import ShapeContract.Proofs.Wire.Opened

/-!
# The order of keys in a payload

Preparation goes through the members of a payload in their own order and appends the defaults, so with
the keys in another order the prepared data has them in another order. Checking goes through the
keywords of the schema and looks members up, so it finds the same violations in the same order; only
the messages quote the data.
-/

set_option autoImplicit false

namespace ShapeContract.Wire

open Schema (keywordsOf ofDocument)
open Value (Shuffled Reordered)

/-! ## Preparation -/

section Lists

variable {α β γ : Type} {f : α → Except Failure β} {xs ys : List α}

/-- Lists whose items are worked through alike are. -/
theorem sameOutcome_mapM {R : α → α → Prop} {S : β → β → Prop} (pairs : List.Forall₂ R xs ys)
    (each : ∀ x y, R x y → SameOutcome S (f x) (f y)) :
    SameOutcome (List.Forall₂ S) (xs.mapM f) (ys.mapM f) := by
  induction pairs with
  | nil => exact .done [] [] .nil
  | cons head _ ih =>
    rw [List.mapM_cons, List.mapM_cons]
    refine (each _ _ head).bind fun a b first => ih.bind fun as bs others => ?_
    exact .done _ _ (.cons first others)

/-- Results of a permuted list are the permuted results. -/
theorem mapM_ok_of_perm (moved : xs.Perm ys) {as : List β} (done : xs.mapM f = .ok as) :
    ∃ bs, ys.mapM f = .ok bs ∧ as.Perm bs := by
  have each := mapM_ok_iff.1 done
  obtain ⟨bs, others, between⟩ := List.perm_comp_forall₂ moved.symm each
  exact ⟨bs, mapM_ok_iff.2 others, between.symm⟩

/-- Where there is one way to fail, the order of a list does not matter for whether it fails. -/
theorem sameOutcome_mapM_perm (alike : ∀ x e, f x = .error e → e = .valueMisuse)
    (moved : xs.Perm ys) : SameOutcome List.Perm (xs.mapM f) (ys.mapM f) := by
  have failure : ∀ {zs : List α} {e : Failure}, zs.mapM f = .error e → e = .valueMisuse := by
    intro zs e fails
    obtain ⟨x, -, fails⟩ := exists_of_mapM_error fails
    exact alike x e fails
  cases left : xs.mapM f with
  | ok as =>
    obtain ⟨bs, right, between⟩ := mapM_ok_of_perm moved left
    rw [right]
    exact .done as bs between
  | error e =>
    cases right : ys.mapM f with
    | ok bs =>
      obtain ⟨as, done, -⟩ := mapM_ok_of_perm moved.symm right
      rw [left] at done
      cases done
    | error e' =>
      rw [failure left, failure right]
      exact .failed _

end Lists

section Scalars

variable {v w : Value}

/-- Coercion brings in no mapping: what is not as it was is a number, a text, a truth value or null. -/
theorem wellKeyed_coerce {t : TypeName} (keyed : v.WellKeyed) (done : coerce t v = .ok w) :
    w.WellKeyed := by
  rcases brought_of_coerce done with rfl | settles
  · exact keyed
  · cases t with
    | array | object =>
      simp only [coerce, ite_self] at done
      cases done
      exact keyed
    | _ => cases w <;> trivial

/-- Coercion does not look at the order of keys. -/
theorem coerced_shuffled (h : Handling) (ks : List Keyword) (shuffled : Shuffled v w) :
    SameOutcome Shuffled (coerced h ks v) (coerced h ks w) := by
  unfold coerced
  split
  next t _ _ =>
    rcases shuffled.cases with ⟨vs, ws, rfl, rfl, -⟩ | ⟨fs, gs, rfl, rfl, -⟩ | rfl
    · rw [coerce_list, coerce_list]
      exact .done _ _ shuffled
    · rw [coerce_mapping rfl, coerce_mapping rfl]
      exact .done _ _ shuffled
    · cases done : coerce t v with
      | error e => exact .failed e
      | ok d => exact .done d d (.refl (wellKeyed_coerce shuffled.keyed done))
  next => exact .done v w shuffled

/-- A value that is prepared as a whole is coerced at most. -/
theorem prepare_atomic_shuffled (h : Handling) {ks : List Keyword} (atomic : Atomic ks v)
    (shuffled : Shuffled v w) :
    SameOutcome Shuffled (prepare h (.document ks) v) (prepare h (.document ks) w) := by
  have other : Atomic ks w := by
    rcases shuffled.cases with ⟨vs, ws, rfl, rfl, -⟩ | ⟨fs, gs, rfl, rfl, -⟩ | rfl
    · unfold Atomic at atomic ⊢
      split <;> simp_all
    · unfold Atomic at atomic ⊢
      split <;> simp_all
    · exact atomic
  rw [prepare_atomic h atomic, prepare_atomic h other]
  exact coerced_shuffled h ks shuffled

end Scalars

section Members

variable {h : Handling} {ps : List (String × Schema)} {fs gs : Fields Value}

/-- Members in another order are prepared to members in another order. -/
theorem prepareMembers_reordered
    (each : ∀ e ∈ ps, ∀ v w, Shuffled v w →
      SameOutcome Shuffled (prepare h e.2 v) (prepare h e.2 w))
    (reordered : Reordered fs gs) :
    SameOutcome Reordered (prepareMembers h ps fs) (prepareMembers h ps gs) := by
  obtain ⟨hs, moved, aligned⟩ := reordered.aligned
  have members : ∀ e f, Value.ShuffledEntry e f →
      SameOutcome Value.ShuffledEntry (prepareMember h ps e) (prepareMember h ps f) := by
    rintro ⟨name, v⟩ ⟨_, w⟩ ⟨rfl, values⟩
    cases declared : Fields.get? ps name with
    | none =>
      rw [prepareMember_unknown declared, prepareMember_unknown declared]
      exact .done _ _ ⟨rfl, values⟩
    | some s =>
      rw [prepareMember_known declared, prepareMember_known declared]
      exact (each _ (Fields.mem_of_get? declared) v w values).map fun _ _ same => ⟨rfl, same⟩
  have failure : ∀ e x, prepareMember h ps e = .error x → x = .valueMisuse := by
    rintro ⟨name, v⟩ x fails
    cases declared : Fields.get? ps name with
    | none =>
      rw [prepareMember_unknown declared] at fails
      cases fails
    | some s =>
      rw [prepareMember_known declared] at fails
      cases inner : prepare h s v with
      | ok d => rw [inner] at fails; cases fails
      | error y =>
        rw [inner] at fails
        cases fails
        exact (prepare_error_iff.1 inner).1
  have kept : List.Forall₂ Value.ShuffledEntry (fs.filter (keepsMember h ps))
      (hs.filter (keepsMember h ps)) := by
    refine List.rel_filter ?_ aligned
    intro e f entries
    simp only [keepsMember, entries.1]
  -- First each member where it stands, then all of them in the other order.
  have inPlace := sameOutcome_mapM kept members
  have across := sameOutcome_mapM_perm failure (moved.filter (keepsMember h ps))
  refine (inPlace.trans across fun out mid out' pairs between =>
    show ∃ hs, hs.Perm out' ∧ List.Forall₂ Value.ShuffledEntry out hs from
      ⟨mid, between, pairs⟩).imp fun out out' done _ both => ?_
  exact ⟨nodup_prepareMembers reordered.own done, both⟩

/-- The same defaults are missing, and go to the end of both. -/
theorem filled_reordered {ks : List Keyword} (own : (Fields.keys (Keyword.propertiesOf ks)).Nodup)
    (defaults : ∀ e ∈ Keyword.propertiesOf ks, ∀ w, e.2.default? = some w → w.WellKeyed)
    (reordered : Reordered fs gs) :
    Reordered (fs ++ missingDefaults ks fs) (gs ++ missingDefaults ks gs) := by
  have same : missingDefaults ks fs = missingDefaults ks gs := by
    unfold missingDefaults
    simp only [reordered.contains_eq]
  obtain ⟨hs, moved, aligned⟩ := reordered.aligned
  refine ⟨nodup_filled reordered.own own, hs ++ missingDefaults ks gs, moved.append_right _, ?_⟩
  refine List.rel_append aligned ?_
  rw [same]
  refine List.forall₂_same.2 ?_
  rintro ⟨name, w⟩ inside
  obtain ⟨s, property, -, default⟩ := mem_missingDefaults.1 inside
  exact ⟨rfl, .refl (defaults _ property w default)⟩

end Members

/-! ## Checks -/

/-- What a violation says but for its words. -/
def Violation.core (e : Violation) : List String × String × Bool := (e.path, e.keyword, e.writable)

/-- The core of a violation leaves out the message, which quotes the value in its own order. -/
theorem core_demand {holds holds' : Bool} {quoted quoted' : List Value} (keyword m m' : String)
    (same : holds = holds') (writable : Value.writableAll quoted = Value.writableAll quoted') :
    (demand holds keyword m quoted).map Violation.core =
      (demand holds' keyword m' quoted').map Violation.core := by
  subst same
  cases holds with
  | true => rfl
  | false => simp [demand, Violation.here, Violation.core, writable]

/-- Under one step the cores stay alike. -/
theorem core_within {s : Schema} {es fs : List Violation} (step : String)
    (same : es.map Violation.core = fs.map Violation.core) :
    (within step s es).map Violation.core = (within step s fs).map Violation.core := by
  cases s with
  | document ks =>
    have under : Violation.core ∘ Violation.under step =
        (fun c => (step :: c.1, c.2)) ∘ Violation.core := rfl
    simp only [within, List.map_map, under]
    rw [← List.map_map, same, List.map_map]
  | _ => exact same

section Keywords

variable {v w : Value}

/-- What can be quoted of one order can be quoted of the other. -/
theorem writableAll_quoted (shuffled : Shuffled v w) (others : List Value) :
    Value.writableAll (v :: others) = Value.writableAll (w :: others) := by
  rw [Value.writableAll, Value.writableAll, Value.writable_of_sameData v w shuffled.same]

/-- Types are told apart without looking at the order of keys. -/
theorem admits_shuffled (t : TypeName) (shuffled : Shuffled v w) : t.admits v = t.admits w := by
  rcases shuffled.cases with ⟨vs, ws, rfl, rfl, -⟩ | ⟨fs, gs, rfl, rfl, -⟩ | rfl
  · cases t <;> rfl
  · cases t <;> rfl
  · rfl

theorem core_checkTypes (ts : List TypeName) (shuffled : Shuffled v w) :
    (checkTypes ts v).map Violation.core = (checkTypes ts w).map Violation.core := by
  refine core_demand _ _ _ ?_ (writableAll_quoted shuffled [])
  simp only [admits_shuffled _ shuffled]

/-- A keyword whose operand has no schemas in it finds the same. -/
theorem core_checkPlain (k : Keyword) (shuffled : Shuffled v w) :
    (k.checkPlain v).map Violation.core = (k.checkPlain w).map Violation.core := by
  have writable := writableAll_quoted shuffled
  cases k with
  | type t => exact core_checkTypes [t] shuffled
  | types ts => exact core_checkTypes ts shuffled
  | enum us =>
    refine core_demand _ _ _ ?_ (writable [.list us])
    simp only [Value.same_shuffled _ shuffled]
  | minItems n | maxItems n =>
    rcases shuffled.cases with ⟨vs, ws, rfl, rfl, pairs⟩ | ⟨fs, gs, rfl, rfl, -⟩ | rfl
    · exact core_demand _ _ _ (by rw [pairs.length_eq]) (writable [])
    · rfl
    · rfl
  | required names =>
    rcases shuffled.cases with ⟨vs, ws, rfl, rfl, -⟩ | ⟨fs, gs, rfl, rfl, reordered⟩ | rfl
    · rfl
    · change (missing names fs).map Violation.core = (missing names gs).map Violation.core
      simp only [missing, reordered.contains_eq]
    · rfl
  | _ => rcases shuffled.cases with ⟨vs, ws, rfl, rfl, -⟩ | ⟨fs, gs, rfl, rfl, -⟩ | rfl <;> rfl

end Keywords

/-- The order of keys does not matter below a schema: neither for what values are prepared to nor for
what is found about them. -/
structure OrderFree (h : Handling) (s : Schema) : Prop where
  default : ∀ w, s.default? = some w → w.WellKeyed
  prepare : ∀ v w, Shuffled v w → SameOutcome Shuffled (prepare h s v) (prepare h s w)
  check : ∀ v w, Shuffled v w → (check s v).map Violation.core = (check s w).map Violation.core

section Objects

variable {h : Handling} {ps : List (String × Schema)}

/-- Declared properties are checked in the schema's order, so the payload's does not show. -/
theorem core_checkProperties (each : ∀ e ∈ ps, OrderFree h e.2) {fs gs : Fields Value}
    (reordered : Reordered fs gs) :
    (checkProperties ps fs).map Violation.core = (checkProperties ps gs).map Violation.core := by
  rw [checkProperties_eq_flatMap, checkProperties_eq_flatMap, List.map_flatMap, List.map_flatMap]
  refine List.flatMap_congr fun e inside => ?_
  have found := reordered.get? e.1
  generalize Fields.get? fs e.1 = x, Fields.get? gs e.1 = y at found ⊢
  cases found with
  | none => rfl
  | some values => exact core_within _ ((each e inside).check _ _ values)

/-- Names can always be quoted. -/
theorem writableAll_names (fs : Fields Value) (declared : List String) :
    Value.writableAll ((extras declared (.object fs)).map Prod.fst) = true := by
  refine Value.writableAll_iff.2 (List.forall_mem_map.2 fun e inside => ?_)
  obtain ⟨d, -, rfl⟩ := List.mem_map.1 (List.mem_of_mem_filter inside)
  rfl

/-- An object has no extras when each of its names is declared. -/
theorem extras_object_eq_nil_iff {fs : Fields Value} {declared : List String} :
    extras declared (.object fs) = [] ↔ ∀ name ∈ fs.keys, name ∈ declared := by
  constructor
  · intro known name named
    obtain ⟨e, inside, rfl⟩ := List.mem_map.1 named
    exact declared_of_extras known e inside
  · intro known
    refine List.filter_eq_nil_iff.2 fun e inside => ?_
    obtain ⟨⟨name, v⟩, among, rfl⟩ := List.mem_map.1 inside
    simpa using known name (List.mem_map_of_mem among)

/-- Extras are reported once, whatever their order. -/
theorem core_additional (a : Bool) (declared : List String) {v w : Value} (shuffled : Shuffled v w) :
    (checkKeyword declared (.additional (if a then .always else .never)) v).map Violation.core =
      (checkKeyword declared (.additional (if a then .always else .never)) w).map Violation.core := by
  cases a with
  | true =>
    have calm : ∀ u, checkKeyword declared (.additional .always) u = [] :=
      fun u => List.flatMap_eq_nil_iff.2 fun _ _ => rfl
    exact (congrArg _ (calm v)).trans (congrArg _ (calm w)).symm
  | false =>
    rcases shuffled.cases with ⟨vs, ws, rfl, rfl, -⟩ | ⟨fs, gs, rfl, rfl, reordered⟩ | rfl
    · rfl
    · refine core_demand _ _ _ ?_ (by rw [writableAll_names, writableAll_names])
      rw [Bool.eq_iff_iff, List.isEmpty_iff, List.isEmpty_iff, extras_object_eq_nil_iff,
        extras_object_eq_nil_iff]
      simp only [reordered.keys_perm.mem_iff]
    · rfl

/-- An object, once the order of keys does not matter below its properties. -/
theorem OrderFree.object {a : Bool} {required : List String} {default : Option Value}
    (own : (Fields.keys ps).Nodup) (each : ∀ e ∈ ps, OrderFree h e.2)
    (keyed : ∀ w, default = some w → w.WellKeyed) :
    OrderFree h (.object a ps required default) := by
  constructor
  · intro w declared
    rw [default?_object] at declared
    exact keyed w declared
  · intro v w shuffled
    have members : ∀ {fs gs : Fields Value}, Reordered fs gs →
        SameOutcome Reordered (prepareMembers h ps fs) (prepareMembers h ps gs) :=
      prepareMembers_reordered fun e inside => (each e inside).prepare
    rw [Schema.object]
    rcases atomic_or (objectSchema a ps required ++ defaultKeyword default) v with
      ⟨fs, -, rfl⟩ | ⟨vs, type, -⟩ | atomic
    · obtain ⟨gs, rfl, reordered⟩ := Value.shuffled_object_iff.1 shuffled
      rw [prepare_object h rfl, prepare_object h rfl]
      refine (members reordered).map fun out out' prepared => ?_
      refine Value.shuffled_object_iff.2 ⟨_, rfl, filled_reordered own ?_ prepared⟩
      exact fun e inside => (each e inside).default
    · cases type
    · exact prepare_atomic_shuffled h atomic shuffled
  · intro v w shuffled
    rw [check_object, check_object, List.map_append, List.map_append, List.map_append,
      List.map_append, core_checkTypes _ shuffled, core_additional a _ shuffled]
    congr 2
    rcases shuffled.cases with ⟨vs, ws, rfl, rfl, -⟩ | ⟨fs, gs, rfl, rfl, reordered⟩ | rfl
    · rfl
    · have names := core_checkPlain (.required required) shuffled
      change (missing required fs).map _ = (missing required gs).map _ at names
      simp only [Value.members?, List.map_append, core_checkProperties each reordered, names]
    · rfl

end Objects

/-! ## Arrays -/

section Arrays

variable {h : Handling} {s : Schema} {counts : List Keyword} {default : Option Value}

/-- What a value breaks of an array that only counts its items. -/
theorem check_array_of_counts (count : ∀ k ∈ counts, k.Counts) (v : Value) :
    check (.array s counts default) v =
      checkTypes [.array] v ++ checkKeyword [] (.items s) v ++
        counts.flatMap fun k => k.checkPlain v := by
  have plain : counts.flatMap (fun k => checkKeyword [] k v) =
      counts.flatMap fun k => k.checkPlain v := by
    refine List.flatMap_congr fun k inside => ?_
    obtain ⟨n, rfl | rfl⟩ := count k inside <;> rfl
  rw [check_array (propertiesOf_counts count default), plain]

/-- Elements are checked at their indices, which reordering keys does not move. -/
theorem core_items (element : OrderFree h s) {vs ws : List Value}
    (pairs : List.Forall₂ Shuffled vs ws) (start : Nat) :
    ((vs.zipIdx start).flatMap fun e => within (Decimal.text e.2) s (check s e.1)).map
        Violation.core =
      ((ws.zipIdx start).flatMap fun e => within (Decimal.text e.2) s (check s e.1)).map
        Violation.core := by
  induction pairs generalizing start with
  | nil => rfl
  | cons head _ ih =>
    rw [List.zipIdx_cons, List.zipIdx_cons, List.flatMap_cons, List.flatMap_cons, List.map_append,
      List.map_append, ih, core_within _ (element.check _ _ head)]

/-- An array, once the order of keys does not matter below its items. -/
theorem OrderFree.array (count : ∀ k ∈ counts, k.Counts) (element : OrderFree h s)
    (keyed : ∀ w, default = some w → w.WellKeyed) : OrderFree h (.array s counts default) := by
  constructor
  · intro w declared
    rw [default?_array count] at declared
    exact keyed w declared
  · intro v w shuffled
    rw [Schema.array]
    rcases atomic_or ([.type .array, .items s] ++ counts ++ defaultKeyword default) v with
      ⟨fs, type, -⟩ | ⟨vs, -, rfl⟩ | atomic
    · cases type
    · obtain ⟨ws, rfl, pairs⟩ := Value.shuffled_list_iff.1 shuffled
      rw [prepare_array h rfl, prepare_array h rfl]
      refine (sameOutcome_mapM pairs element.prepare).map fun out out' prepared => ?_
      exact Value.shuffled_list_iff.2 ⟨out', rfl, prepared⟩
    · exact prepare_atomic_shuffled h atomic shuffled
  · intro v w shuffled
    have counted : (counts.flatMap fun k => k.checkPlain v).map Violation.core =
        (counts.flatMap fun k => k.checkPlain w).map Violation.core := by
      rw [List.map_flatMap, List.map_flatMap]
      exact List.flatMap_congr fun k _ => core_checkPlain k shuffled
    rw [check_array_of_counts count, check_array_of_counts count, List.map_append, List.map_append,
      List.map_append, List.map_append, core_checkTypes _ shuffled, counted]
    congr 2
    rcases shuffled.cases with ⟨vs, ws, rfl, rfl, pairs⟩ | ⟨fs, gs, rfl, rfl, -⟩ | rfl
    · exact core_items element pairs 0
    · rfl
    · rfl

end Arrays

/-! ## Values without parts -/

section Flat

/-- A keyword that is read by itself has no schemas in it. -/
theorem checkKeyword_of_ofPlain? [CharacterNames] {name : String} {x : Value} {k : Keyword}
    (read : Keyword.ofPlain? name x = some k) (declared : List String) (v : Value) :
    checkKeyword declared k v = k.checkPlain v := by
  cases k with
  | properties | additional | items | itemList =>
    unfold Keyword.ofPlain? at read
    split at read <;> (try split at read) <;> simp [Option.bind_eq_some_iff] at read
  | _ => rfl

/-- Keywords whose operands have no schemas in them find the same. -/
theorem core_checkAll_plain [CharacterNames] {fs : Fields Value}
    (words : ∀ e ∈ fs, plain e.1 = true)
    (declared : List String) {v w : Value} (shuffled : Shuffled v w) :
    (checkAll declared (keywordsOf fs) v).map Violation.core =
      (checkAll declared (keywordsOf fs) w).map Violation.core := by
  induction fs with
  | nil => rfl
  | cons e rest ih =>
    obtain ⟨name, x⟩ := e
    obtain ⟨word, others⟩ := List.forall_mem_cons.1 words
    have later := ih others
    rw [checkAll_eq_flatMap, checkAll_eq_flatMap] at later
    rw [keywordsOf_cons, keywordsOf_plain word, checkAll_eq_flatMap, checkAll_eq_flatMap,
      List.flatMap_append, List.flatMap_append, List.map_append, List.map_append, later]
    congr 1
    cases read : Keyword.ofPlain? name x with
    | none => rfl
    | some k =>
      simp only [Option.toList_some, List.flatMap_singleton, checkKeyword_of_ofPlain? read]
      exact core_checkPlain k shuffled

/-- A document without parts has such keywords alone. -/
theorem exists_plain_keywords (a : Bool) {r : Rule} (notObject : r.type ≠ .object)
    (notArray : r.type ≠ .array) :
    ∃ fs : Fields Value, ofRule a r = .object fs ∧ ∀ e ∈ fs, plain e.1 = true := by
  obtain ⟨f, items, children⟩ := r
  rw [ofRule]
  refine ⟨_, rfl, ?_⟩
  rintro ⟨name, x⟩ inside
  have other : name ≠ "properties" ∧ name ≠ "additionalProperties" ∧ name ≠ "items" := by
    cases type : f.type with
    | object => exact absurd type notObject
    | array => exact absurd type notArray
    | _ =>
      rw [type] at inside
      refine ⟨?_, ?_, ?_⟩ <;> rintro rfl <;>
        simp [stringKeywords, numberKeywords, dateKeywords, objectIdKeywords,
          Rule.mem_entry_iff] at inside
  simpa [plain] using other

/-- A schema without parts is free of order. -/
theorem OrderFree.flat [CharacterNames] (a : Bool) {r : Rule} (h : Handling)
    (notObject : r.type ≠ .object)
    (notArray : r.type ≠ .array) (keyed : ∀ w, r.facets.default = some w → w.WellKeyed) :
    OrderFree h (schemaOf a r) := by
  obtain ⟨fs, document, words⟩ := exists_plain_keywords a notObject notArray
  constructor
  · intro w declared
    rw [default?_schemaOf_of_flat a notObject notArray] at declared
    exact keyed w declared
  · intro v w shuffled
    obtain ⟨ks, flat, types⟩ := flat_schemaOf a notObject notArray
    rw [flat]
    rcases atomic_or ks v with ⟨gs, type, -⟩ | ⟨vs, type, -⟩ | atomic
    · rcases types _ type with other | other | other <;> cases other
    · rcases types _ type with other | other | other <;> cases other
    · exact prepare_atomic_shuffled h atomic shuffled
  · intro v w shuffled
    rw [schemaOf, document, ofDocument]
    exact core_checkAll_plain words _ shuffled

end Flat

/-! ## Validators -/

/-- Below the document of a rule the order of keys does not matter. -/
theorem orderFree_schemaOf [CharacterNames] (a : Bool) (h : Handling) {r : Rule}
    (keyed : r.WellKeyed) :
    OrderFree h (schemaOf a r) := by
  induction r using Rule.inductByType with
  | object f items children isObject kids =>
    obtain ⟨default, -, fields⟩ := keyed
    obtain ⟨own, each⟩ := Rule.childrenWellKeyed_iff.1 fields
    rw [schemaOf_of_object a isObject]
    refine .object ?_ (List.forall_mem_map.2 fun e inside => kids e inside (each e inside)) default
    rwa [Fields.keys_mapValues]
  | array f items children isArray element =>
    obtain ⟨default, item, -⟩ := keyed
    rw [schemaOf_of_array a isArray]
    refine .array (counts_countKeywords f) ?_ default
    cases items with
    | none =>
      constructor
      · intro w declared
        cases declared
      · intro v w shuffled
        have whole : Atomic [] v := trivial
        exact prepare_atomic_shuffled h whole shuffled
      · intro v w _
        rfl
    | some r => exact element r rfl item
  | flat r notObject notArray =>
    obtain ⟨f, items, children⟩ := r
    exact .flat a h notObject notArray keyed.1

/-- The same answer, with the errors in the same order and the keys of the data in any. -/
structure SameAnswer (a b : Verdict) : Prop where
  ok : a.ok = b.ok
  errors : a.errors.map (fun e => (e.field, e.error)) = b.errors.map fun e => (e.field, e.error)
  data : Value.SameData a.data b.data

/-- The same data with violations of the same core is the same answer. -/
theorem sameAnswer_of {d d' : Value} {es es' : List Violation} (same : Value.SameData d d')
    (found : es.map Violation.core = es'.map Violation.core) :
    SameAnswer (Verdict.of d es) (Verdict.of d' es') := by
  have places : ∀ es : List Violation,
      (es.map Violation.toFieldError).map (fun e => (e.field, e.error)) =
        (es.map Violation.core).map fun c => (Text.join "." c.1, c.2.1) := by
    intro es
    rw [List.map_map, List.map_map]
    rfl
  cases es with
  | nil =>
    cases es' with
    | nil => exact ⟨rfl, rfl, same⟩
    | cons e es' => cases found
  | cons e es =>
    cases es' with
    | nil => cases found
    | cons e' es' =>
      exact ⟨rfl, (places _).trans ((congrArg _ found).trans (places _).symm), rfl⟩

/-- A validator free of order answers reordered payloads alike. -/
theorem Validator.validate_shuffled {c : Validator} (free : OrderFree c.handling c.schema)
    {p q : Value} (shuffled : Shuffled p q) :
    SameOutcome SameAnswer (c.validate p) (c.validate q) := by
  unfold validate report examine
  simp only [bind_assoc, pure_bind]
  refine (free.prepare p q shuffled).bind fun d d' prepared => ?_
  have found := free.check d d' prepared
  have written : (check c.schema d).all Violation.writable =
      (check c.schema d').all Violation.writable := by
    have through : ∀ es : List Violation, es.all Violation.writable =
        (es.map Violation.core).all fun c => c.2.2 := by
      intro es
      rw [List.all_map]
      rfl
    rw [through, found, ← through]
  rw [written]
  split
  · exact .done _ _ (sameAnswer_of prepared.same found)
  · exact .failed _

namespace Origin

/-- **The order of keys in a payload is irrelevant.** Payloads that differ in the order of keys
alone, at any depth, get the same answer: both are accepted, with data that differs in the order of
keys alone, or both are refused with the same errors in the same order, or neither has an answer. -/
theorem validate_reordered [CharacterNames] {s : Origin} (keyed : s.WellKeyed) {h : Handling}
    {c : Validator}
    (built : s.validator h = .ok c) {p q : Value} (payload : p.WellKeyed) (same : p.SameData q) :
    SameOutcome SameAnswer (c.validate p) (c.validate q) := by
  obtain ⟨fields, required, own, each, validators⟩ := exists_fields keyed built
  obtain rfl : objectOf fields required h = c := Except.ok.inj ((validators h).symm.trans built)
  refine Validator.validate_shuffled (OrderFree.object ?_ ?_ ?_) ⟨payload, same⟩
  · rwa [Fields.keys_mapValues]
  · exact List.forall_mem_map.2 fun e inside =>
      orderFree_schemaOf h.allowUnknown h (each e inside)
  · intro w declared
    cases declared

section

attribute [local instance] CharacterNames.common

/-- A place with a default and an age: the same place with its keys the other way round. -/
theorem validate_reordered_place :
    let zip : Rule := ⟨{ type := .string, default := some (.str "none") }, none, none⟩
    let city : Rule := ⟨{ type := .string, required := some (.bool true) }, none, none⟩
    let place : Rule := ⟨{ type := .object }, none, some [("zip", zip), ("city", city)]⟩
    let age : Rule := ⟨{ type := .number }, none, none⟩
    let s : Origin := .tree ⟨{ type := .object }, none, some [("place", place), ("age", age)]⟩
    let inner : Fields Value := [("city", .str "Rome"), ("land", .str "IT")]
    let p : Value := .object [("place", .object inner), ("age", .int 7)]
    let q : Value := .object [("age", .int 7), ("place", .object inner.reverse)]
    s.WellKeyed ∧ p.WellKeyed ∧ p.SameData q ∧ ∃ c, s.validator ⟨false, true⟩ = .ok c ∧
      c.validate p = .ok (.accepted (.object
        [("place", .object (inner ++ [("zip", .str "none")])), ("age", .int 7)])) ∧
      SameOutcome SameAnswer (c.validate p) (c.validate q) := by
  intro zip city place age s inner p q
  have keyed : s.WellKeyed := by
    simp [s, place, zip, city, age, WellKeyed, Rule.WellKeyed, Rule.ItemsWellKeyed,
      Rule.ChildrenWellKeyed, Rule.FieldsWellKeyed, Fields.keys, Value.WellKeyed]
  have payload : p.WellKeyed := by
    simp [p, inner, Value.WellKeyed, Value.FieldsWellKeyed, Fields.keys]
  have nested : Value.SameData (.object inner) (.object inner.reverse) :=
    ⟨_, inner, rfl, (List.reverse_perm inner).symm, Value.SameFields.refl inner⟩
  have same : p.SameData q :=
    ⟨_, [("place", .object inner.reverse), ("age", .int 7)], rfl, List.Perm.swap _ _ [],
      _, _, rfl, nested, Value.SameFields.refl _⟩
  obtain ⟨d, made, clean⟩ : ∃ d, s.document true = .ok d ∧ (Metaschema.findings d).isEmpty = true :=
    ⟨_, rfl, by decide +kernel⟩
  have built : s.validator ⟨false, true⟩ = .ok ⟨ofDocument d, ⟨false, true⟩⟩ :=
    validator_ok_iff.2 ⟨d, made, List.isEmpty_iff.1 clean, rfl⟩
  refine ⟨keyed, payload, same, _, built, ?_, validate_reordered keyed built payload same⟩
  cases made
  exact Validator.validate_accepted_iff.2 ⟨rfl, by decide +kernel⟩

end

end Origin

end ShapeContract.Wire
