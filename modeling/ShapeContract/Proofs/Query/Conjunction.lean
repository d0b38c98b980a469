import Mathlib.Data.List.Nodup
import ShapeContract.Proofs.Query.Building

/-!
# A filter is the conjunction of its criteria

The document that criteria make is tried on an item condition by condition. Each condition answers
as a criterion does, and a mapping keeps all of them, so the items that the document lets through are
those that satisfy every single criterion, in their order; there is no list if an item cannot be told
of: `Criteria.apply_filter`.
-/

set_option autoImplicit false

namespace ShapeContract

/-! ## Fields of their own -/

namespace Sought

variable {s : Sought} {name : String}

/-- A field asked for with a value is among the criteria under that very condition. -/
theorem mem_criteria_of_valued {e : String × Criterion} (inside : e ∈ s.valued) : e ∈ s.criteria :=
  List.mem_append_left _ (List.mem_append_left _ (List.mem_append_left _ inside))

theorem mem_criteria_of_present (inside : name ∈ s.present) : (name, .present) ∈ s.criteria :=
  List.mem_append_left _ (List.mem_append_left _
    (List.mem_append_right _ (List.mem_map_of_mem inside)))

theorem mem_criteria_of_absent (inside : name ∈ s.absent) : (name, .absent) ∈ s.criteria :=
  List.mem_append_left _ (List.mem_append_right _ (List.mem_map_of_mem inside))

/-- A condition that carries a value is neither of the two presence conditions. -/
theorem ne_presence_of_valued {e : String × Criterion} (inside : e ∈ s.valued) :
    e.2 ≠ .present ∧ e.2 ≠ .absent := by
  simp only [valued, Fields.mapValues, List.mem_append, List.mem_map] at inside
  rcases inside with (⟨d, -, rfl⟩ | ⟨d, -, rfl⟩) | ⟨d, -, rfl⟩ <;> simp

/-- A field whose value is asked for is not asked to be there or to be missing. -/
theorem ne_presence_of_keys (apart : s.Apart) (valued : name ∈ s.valued.keys) {k : Criterion}
    (asked : (name, k) ∈ s.criteria) : k ≠ .present ∧ k ≠ .absent := by
  obtain ⟨e, inside, rfl⟩ := List.mem_map.1 valued
  have same : e = (e.1, k) := apart _ (mem_criteria_of_valued inside) _ asked rfl
  have plain := ne_presence_of_valued inside
  rwa [same] at plain

/-- A search that stands apart does not ask for a field both present and absent. -/
theorem notMem_absent_of_present (apart : s.Apart) (there : name ∈ s.present) : name ∉ s.absent := by
  intro missing
  have same := apart _ (mem_criteria_of_present there) _ (mem_criteria_of_absent missing) rfl
  cases same

/-- The fields whose texts are looked into. -/
def looked (s : Sought) : List String := (s.search.elim [] Prod.snd) ++ s.like.keys

/-- A field under a pattern is looked into, so its text has to be printable. -/
theorem mem_looked_of_like {p : Pattern} (asked : (name, .like p) ∈ s.criteria) :
    name ∈ s.looked := by
  have inside : (name, p) ∈ s.like := by
    simpa [criteria, valued, Fields.mapValues] using asked
  exact List.mem_append_right _ (List.mem_map_of_mem inside)

/-- An item can be told of if all texts that may be looked into can be had. -/
theorem not_stuck_of_displayable {item : Value} (written : ∀ name ∈ s.looked, ∀ v,
    Criterion.given (item.field? name) = some v → v.displayable = true) : ¬ s.Stuck item := by
  have read (p : Pattern) {name : String} (inside : name ∈ s.looked) :
      ¬ (Criterion.like p).Unread (item.field? name) := by
    rintro ⟨v, given, unwritten⟩
    exact Bool.noConfusion (unwritten.symm.trans (written name inside v given))
  rintro (⟨p, names, search, reaches⟩ | ⟨-, reaches⟩)
  · obtain ⟨name, inside, unread⟩ := reaches.exists_mem
    have among : name ∈ s.looked := List.mem_append_left _ (by rwa [search])
    exact read p among unread
  · obtain ⟨⟨name, k⟩, inside, unread⟩ := reaches.exists_mem
    cases k with
    | like p => exact read p (mem_looked_of_like inside) unread
    | _ => exact unread

end Sought

/-! ## All conditions of a search -/

namespace Criteria

open ShapeContract.Filter (Answers)

variable {c : Criteria} {s : Sought} {items : List Value} {conds : Fields Value}

/-- Conditions and criteria name the same fields in the same order. -/
theorem keys_of_answers [CharacterNames] {criteria : Fields Criterion}
    (answers : List.Forall₂ (Answers items) conds criteria) : conds.keys = criteria.keys := by
  induction answers with
  | nil => rfl
  | cons here _ ih => exact congrArg₂ List.cons here.1 ih

/-- A plain wanted value is the criterion `equals`; a mapping would be read as operators. -/
theorem answers_equals [CharacterNames] {wanted : Fields Value}
    (plain : ∀ e ∈ wanted, e.2.isMapping = false) :
    List.Forall₂ (Answers items) wanted (wanted.mapValues .equals) :=
  List.forall₂_map_right_iff.2 (List.forall₂_same.2 fun e inside =>
    ⟨rfl, fun _ _ => .of_ok not_false (Filter.conditionHolds_equals (plain e inside) _)⟩)

theorem keys_existences (wanted : Bool) (names : List String) :
    (existences wanted names).keys = names := List.map_map.trans (List.map_id names)

/-- The `$exists` entries the macro writes answer the presence criteria of their names. -/
theorem answers_existences [CharacterNames] (wanted : Bool) (names : List String) :
    List.Forall₂ (Answers items) (existences wanted names)
      (names.map fun name => (name, if wanted then .present else .absent)) := by
  have free (v : Option Value) :
      ¬ (if wanted then Criterion.present else Criterion.absent).Unread v := by
    cases wanted <;> exact not_false
  exact List.forall₂_map_left_iff.2 (List.forall₂_map_right_iff.2 (List.forall₂_same.2 fun _ _ =>
    ⟨rfl, fun _ _ => .of_ok (free _) (Filter.conditionHolds_exists wanted _)⟩))

/-- The only name a text search brings into the filter is `$or`. -/
theorem eq_or_of_finds [CharacterNames] {extra : Fields Value}
    {search : Option (Pattern × List String)}
    (finds : Finds extra search) {name : String} (inside : name ∈ extra.keys) : name = "$or" := by
  cases finds with
  | nothing => cases inside
  | branches any made => exact List.mem_singleton.1 inside

/-- On names the filter does not hold yet, the presence macro appends its entries in order. -/
theorem addPresence_ofList (wanted : Bool) {part : Value} {names : List String}
    (named : Named part names) {entries : Fields Value} (free : ∀ name ∈ names, name ∉ entries.keys) :
    addPresence wanted part (Entries.ofFields (Fields.ofList entries)) =
      .ok (Entries.ofFields (Fields.ofList (entries ++ existences wanted names))) := by
  rw [Fields.ofList_append]
  exact addPresence_named named fun name inside =>
    .inl (Fields.get?_putAll_of_notMem [] (free name inside))

/-- No condition has been written for a field that is asked to be there or to be missing. -/
theorem notMem_keys_of_presence [CharacterNames] {values extra : Fields Value} (apart : s.Apart)
    (unreserved : ∀ e ∈ s.criteria, e.1 ≠ "$or")
    (answers : List.Forall₂ (Answers items) values s.valued) (finds : Finds extra s.search)
    {name : String} {k : Criterion} (asked : (name, k) ∈ s.criteria)
    (presence : k = .present ∨ k = .absent) : name ∉ (values ++ extra).keys := by
  intro inside
  rw [Fields.keys, List.map_append] at inside
  rcases List.mem_append.1 inside with valued | reserved
  · have other := Sought.ne_presence_of_keys apart (keys_of_answers answers ▸ valued) asked
    exact presence.elim other.1 other.2
  · exact unreserved _ asked (eq_or_of_finds finds reserved)

/-- The document of a search: the conditions on single fields, those on values first, and the
documents of which one must hold between them. -/
theorem exists_conditions [CharacterNames] (asks : c.Asks s) (apart : s.Apart)
    (unreserved : ∀ e ∈ s.criteria, e.1 ≠ "$or") (plain : ∀ e ∈ s.equals, e.2.isMapping = false)
    (ranged : s.Comparable items) :
    ∃ values extra others : Fields Value,
      c.filter = .ok (Entries.ofFields (Fields.ofList (values ++ extra ++ others))) ∧
        List.Forall₂ (Answers items) (values ++ others) s.criteria ∧ Finds extra s.search := by
  obtain ⟨among, addsAmong, answersAmong⟩ := addAmong_entered items asks.among
  obtain ⟨ranges, addsRange, answersRange⟩ := addRange_entered asks.range ranged
  obtain ⟨extra, addsSearch, finds⟩ := addSearch_searched asks.search
  obtain ⟨likes, addsRegex, answersLike⟩ := addRegex_entered items asks.regex
  let values := s.equals ++ among ++ ranges
  let present := existences true s.present
  let absent := existences false s.absent
  have answers : List.Forall₂ (Answers items) values s.valued :=
    List.rel_append (List.rel_append (answers_equals plain) answersAmong) answersRange
  have freePresent : ∀ name ∈ s.present, name ∉ (values ++ extra).keys := fun name there =>
    notMem_keys_of_presence apart unreserved answers finds (Sought.mem_criteria_of_present there)
      (.inl rfl)
  have freeAbsent : ∀ name ∈ s.absent, name ∉ (values ++ extra ++ present).keys := by
    intro name missing inside
    rw [Fields.keys, List.map_append] at inside
    rcases List.mem_append.1 inside with before | there
    · exact notMem_keys_of_presence apart unreserved answers finds
        (Sought.mem_criteria_of_absent missing) (.inr rfl) before
    · exact Sought.notMem_absent_of_present apart (keys_existences true s.present ▸ there) missing
  have throughEquals : addEquals c.equals [] = .ok (Entries.ofFields (Fields.ofList s.equals)) :=
    addEquals_entered asks.equals []
  have throughPresent := addPresence_ofList true asks.present freePresent
  have throughAbsent := addPresence_ofList false asks.absent freeAbsent
  refine ⟨values, extra, present ++ absent ++ likes, ?_, ?_, finds⟩
  · have written : c.filter = addRegex c.regex
        (Entries.ofFields (Fields.ofList (values ++ extra ++ present ++ absent))) := by
      simp only [filter, throughEquals, addsAmong, addsRange, addsSearch, ← Fields.ofList_append,
        bind, Except.bind]
      rw [throughPresent]
      dsimp only
      rw [throughAbsent]
    rw [written, addsRegex, ← Fields.ofList_append]
    simp only [List.append_assoc]
  · have all : List.Forall₂ (Answers items) (values ++ present ++ absent ++ likes) s.criteria :=
      List.rel_append (List.rel_append (List.rel_append answers (answers_existences true s.present))
        (answers_existences false s.absent)) answersLike
    simpa only [List.append_assoc] using all

end Criteria

/-! ## One item -/

namespace Filter

variable {items : List Value} {item : Value} {ds : Fields Value}

/-- On a record a condition under a field name is tried on that field. -/
theorem fieldHolds_named [CharacterNames] (record : item.isMapping = true) (name : String)
    (cond : Value) :
    fieldHolds item (.str name, cond) = conditionHolds cond (item.field? name) := by
  cases item <;> first | rfl | cases record

/-- What a condition of a document says of an item; what is under `$or` is tried apart. -/
def verdict [CharacterNames] (item : Value) (e : String × Value) : Except Failure Bool :=
  if e.1 = "$or" then .ok true else conditionHolds e.2 (item.field? e.1)

theorem verdict_single [CharacterNames] {e : String × Value} (single : e.1 ≠ "$or") :
    verdict item e = conditionHolds e.2 (item.field? e.1) := if_neg single

/-- An entry that answers a criterion gives the criterion's verdict, and is stuck where the
criterion cannot be read. -/
theorem verdict_of_answers [CharacterNames] {e : String × Value} {d : String × Criterion}
    (answers : Answers items e d) (inside : item ∈ items) (single : e.1 ≠ "$or") :
    Tells (d.2.Unread (item.field? d.1)) (d.2.holds (item.field? d.1)) (verdict item e) := by
  obtain ⟨same, answer⟩ := answers
  rw [verdict_single single, ← same]
  exact answer item inside

/-- The conditions of a document but for what is under `$or`. -/
theorem allHold_erase [CharacterNames] (record : item.isMapping = true) (ds : Fields Value) :
    allHold (Entries.ofFields (ds.erase "$or")) item = ds.allM (verdict item) := by
  rw [allHold, Entries.ofFields, allM_map, Fields.erase]
  induction ds with
  | nil => rfl
  | cons e rest ih =>
    rw [List.filter_cons, List.allM_cons, ← ih]
    by_cases reserved : e.1 = "$or"
    · rw [verdict, if_pos reserved, if_neg (by simp [reserved])]
      rfl
    · rw [verdict_single reserved, if_pos (by simp [reserved]), List.allM_cons,
        fieldHolds_named record]

/-- An `$or` over one pattern tries the named fields in turn, up to the first that holds. -/
theorem someHolds_branches [CharacterNames] (record : item.isMapping = true) (cond : Value)
    (names : List String) :
    someHolds (.list (names.map fun name => .object [(name, cond)])) item =
      names.anyM fun name => conditionHolds cond (item.field? name) := by
  have branches : someHolds (.list (names.map fun name => .object [(name, cond)])) item =
      names.anyM fun name => allHold (Entries.ofFields [(name, cond)]) item := anyM_map _ _ _
  have single (name : String) : allHold (Entries.ofFields [(name, cond)]) item =
      conditionHolds cond (item.field? name) :=
    (allM_singleton _ _).trans (fieldHolds_named record name cond)
  simp only [branches, single]

/-- Whether what a document has under `$or` holds of an item; where there is nothing, it does. -/
def oneHolds [CharacterNames] (branches : Option Value) (item : Value) : Except Failure Bool :=
  if (branches.getD .null).truthy then someHolds (branches.getD .null) item else pure true

/-- A search in several fields is tried by the documents under `$or`. -/
theorem branches_of_finds [CharacterNames] {s : Sought} {extra : Fields Value}
    (finds : Criteria.Finds extra s.search) (record : item.isMapping = true) :
    Tells (s.Lost item) (s.found item) (oneHolds (extra.get? "$or") item) := by
  rw [Sought.Lost, Sought.found]
  generalize s.search = search at finds
  cases finds with
  | nothing => exact .answers (by simp)
  | @branches source g p names any made =>
    obtain ⟨name, rest, rfl⟩ := List.exists_cons_of_ne_nil any
    have tried : oneHolds (some (.list ((name :: rest).map fun name =>
        .object [(name, Criteria.operator "$regex" (.regex source g))]))) item = _ :=
      someHolds_branches record _ (name :: rest)
    rw [Fields.get?_cons, if_pos rfl, tried]
    refine (Tells.anyM fun name _ => conditionHolds_regex made (item.field? name)).congr ?_
    constructor
    · exact fun reaches => ⟨p, _, rfl, reaches⟩
    · rintro ⟨_, _, ⟨⟩, reaches⟩
      exact reaches

/-- Setting `$or` aside leaves the other entries in their order. -/
theorem filter_ofFields (ds : Fields Value) :
    ((Entries.ofFields ds).filter fun e => !e.1.equal anyName) = Entries.ofFields (ds.erase "$or") := by
  rw [Entries.ofFields, List.filter_map, Fields.erase]
  refine congrArg Entries.ofFields (List.filter_congr fun e _ => ?_)
  change (!Value.equal (.str e.1) (.str "$or")) = _
  rw [Value.equal_str]
  exact decide_not.symm

/-- A document tries what is under `$or`, and then each of its other conditions. -/
theorem holds_object [CharacterNames] (record : item.isMapping = true) (ds : Fields Value) :
    Filter.holds (.object ds) item =
      (do if ← oneHolds (ds.get? "$or") item then ds.allM (verdict item) else pure false) := by
  have entries : (Value.object ds).entries = .ok (Entries.ofFields ds) := rfl
  have reserved : (Entries.ofFields ds).get? anyName = ds.get? "$or" := Entries.get?_ofFields ds "$or"
  rw [holds, entries]
  simp only [bind, Except.bind, reserved, filter_ofFields, allHold_erase record, oneHolds]
  split <;> rfl

section Document

variable {s : Sought} {values extra others : Fields Value}

/-- No entry besides the search's own is named `$or` when the caller's fields are not. -/
theorem single_of_answers [CharacterNames] (unreserved : ∀ e ∈ s.criteria, e.1 ≠ "$or")
    (answers : List.Forall₂ (Answers items) (values ++ others) s.criteria) :
    ∀ e ∈ values ++ others, e.1 ≠ "$or" := by
  intro e inside
  obtain ⟨d, asked, same, -⟩ := exists_of_forall₂ answers inside
  exact same ▸ unreserved d asked

/-- The branches found under `$or` are those of the search. -/
theorem get?_branches [CharacterNames] (single : ∀ e ∈ values ++ others, e.1 ≠ "$or")
    (finds : Criteria.Finds extra s.search) :
    (Fields.ofList (values ++ extra ++ others)).get? "$or" = extra.get? "$or" := by
  have unwritten {fs : Fields Value} (own : ∀ e ∈ fs, e.1 ≠ "$or") : "$or" ∉ fs.keys := by
    intro inside
    obtain ⟨e, there, reserved⟩ := List.mem_map.1 inside
    exact own e there reserved
  obtain ⟨before, after⟩ := List.forall_mem_append.1 single
  rw [Fields.ofList_append, Fields.get?_putAll_of_notMem _ (unwritten after), Fields.ofList_append]
  generalize s.search = search at finds
  cases finds with
  | nothing => exact Fields.get?_putAll_of_notMem [] (unwritten before)
  | branches any made => exact Fields.get?_put_self _ "$or" _

/-- Beside what is under `$or`, the document has the conditions on single fields. -/
theorem mem_single [CharacterNames] (finds : Criteria.Finds extra s.search) {e : String × Value}
    (inside : e ∈ values ++ extra ++ others) (single : e.1 ≠ "$or") : e ∈ values ++ others := by
  rcases List.mem_append.1 inside with before | after
  · rcases List.mem_append.1 before with valued | found
    · exact List.mem_append_left _ valued
    · exact absurd (Criteria.eq_or_of_finds finds (List.mem_map_of_mem found)) single
  · exact List.mem_append_right _ after

/-- Conditions of one field say the same, as they come from one criterion. -/
theorem shares_verdict [CharacterNames] (apart : s.Apart)
    (answers : List.Forall₂ (Answers items) (values ++ others) s.criteria)
    (finds : Criteria.Finds extra s.search) (inside : item ∈ items) :
    Fields.Shares (verdict item) (values ++ extra ++ others) := by
  intro e eInside d dInside same
  by_cases reserved : e.1 = "$or"
  · rw [verdict, verdict, if_pos reserved, if_pos (same ▸ reserved)]
  · have single : d.1 ≠ "$or" := same ▸ reserved
    obtain ⟨asked, there, answersE⟩ :=
      exists_of_forall₂ answers (mem_single finds eInside reserved)
    obtain ⟨asked', there', answersD⟩ :=
      exists_of_forall₂ answers (mem_single finds dInside single)
    obtain rfl : asked = asked' :=
      apart _ there _ there' (answersE.1.symm.trans (same.trans answersD.1))
    have tellsE := verdict_of_answers answersE inside reserved
    exact tellsE.unique (verdict_of_answers answersD inside single)

/-- The document has the conditions on single fields, one after the other. -/
theorem allM_document [CharacterNames] (apart : s.Apart)
    (answers : List.Forall₂ (Answers items) (values ++ others) s.criteria)
    (finds : Criteria.Finds extra s.search) (inside : item ∈ items) :
    (Fields.ofList (values ++ extra ++ others)).allM (verdict item) =
      (values ++ others).allM (verdict item) := by
  have between : extra.allM (verdict item) = .ok true := by
    generalize s.search = search at finds
    cases finds with
    | nothing => rfl
    | branches any made => rfl
  rw [Fields.allM_ofList (shares_verdict apart answers finds inside), allM_append, allM_append,
    between, allM_append]
  rcases values.allM (verdict item) with e | _ | _ <;> rfl

/-- The document of a search holds of an item exactly if the item is as the search asks, and fails
exactly if the item cannot be told of. -/
theorem holds_document [CharacterNames] (apart : s.Apart)
    (unreserved : ∀ e ∈ s.criteria, e.1 ≠ "$or")
    (answers : List.Forall₂ (Answers items) (values ++ others) s.criteria)
    (finds : Criteria.Finds extra s.search) (inside : item ∈ items)
    (record : item.isMapping = true) :
    Tells (s.Stuck item) (s.holds item)
      (Filter.holds (.object (Fields.ofList (values ++ extra ++ others))) item) := by
  have single := single_of_answers unreserved answers
  have each := ((List.forall₂_and_left _ _).2 ⟨single, answers⟩).imp fun _ _ here =>
    verdict_of_answers here.2 inside here.1
  rw [holds_object record, get?_branches single finds, allM_document apart answers finds inside]
  exact (branches_of_finds finds record).and (Tells.allM each)

end Document

end Filter

/-- **A filter that is built from criteria lets through exactly the items that satisfy every single
criterion, in their order**, if each item can be told of; otherwise filtering fails. -/
theorem Criteria.apply_filter [CharacterNames] {c : Criteria} {s : Sought} {items : List Value}
    (asks : c.Asks s)
    (apart : s.Apart) (unreserved : ∀ e ∈ s.criteria, e.1 ≠ "$or")
    (plain : ∀ e ∈ s.equals, e.2.isMapping = false) (ranged : s.Comparable items)
    (records : ∀ item ∈ items, item.isMapping = true) :
    ∃ document, c.filter = .ok document ∧
      ((∀ item ∈ items, ¬ s.Stuck item) →
        Filter.apply document.toValue (.list items) = .ok (items.filter s.holds)) ∧
      ((∃ item ∈ items, s.Stuck item) →
        Filter.apply document.toValue (.list items) = .error .valueMisuse) := by
  obtain ⟨values, extra, others, built, answers, finds⟩ :=
    exists_conditions asks apart unreserved plain ranged
  refine ⟨_, built, ?_⟩
  rw [Entries.toValue_ofFields]
  exact Tells.filterM fun item inside =>
    Filter.holds_document apart unreserved answers finds inside (records item inside)

namespace Criteria

def letter (c : Char) (rule : Pattern.CaseRule) : Pattern.Node :=
  .char (.oneOf false [.code c.toNat] rule false)

def anyCaseAn : Pattern :=
  ⟨"an", { ignoreCase := true }, .seq [letter 'a' .all, letter 'n' .all]⟩

def exactX : Pattern := ⟨"x", {}, letter 'x' .exact⟩

/-- Criteria in which each part asks for something. -/
def staffCriteria : Criteria where
  equals := .object [("admin", .bool true)]
  among := .object [("teams", .list [.str "red", .str "blue"])]
  range := .object [("age", .object [("gte", .int 18), ("lte", .null)])]
  search := .object [("q", .str "an"), ("fields", .list [.str "name", .str "mail"])]
  present := .list [.str "mail"]
  absent := .list [.str "left"]
  regex := .object [("code", .object [("pattern", .str "x")])]

def staffSought : Sought where
  equals := [("admin", .bool true)]
  among := [("teams", [.str "red", .str "blue"])]
  within := [("age", (some (.int 18), none))]
  search := some (anyCaseAn, ["name", "mail"])
  present := ["mail"]
  absent := ["left"]
  like := [("code", exactX)]

def staffMember (admin : Value) (age : Int) (name : String) : Value :=
  .object [("admin", admin), ("teams", .list [.str "green", .str "blue"]), ("age", .int age),
    ("name", .str name), ("mail", .str "post"), ("left", .null), ("code", .str "0x1")]

/-- The search of the example, as the macros receive it. -/
theorem staff_asks [CharacterNames] : staffCriteria.Asks staffSought where
  equals := .mapping _
  among := ⟨_, .mapping _, .cons ⟨rfl, rfl⟩ .nil⟩
  range := ⟨_, .mapping _, .cons ⟨rfl, .bounds _⟩ .nil⟩
  search := .fields rfl rfl rfl (by decide) rfl (.text rfl rfl)
  present := .names rfl
  absent := .names rfl
  regex := ⟨_, .mapping _, .cons ⟨rfl, .pattern rfl .missing (.text rfl rfl)⟩ .nil⟩

def staff : List Value :=
  [staffMember (.int 1) 20 "Ann", staffMember (.bool true) 20 "Anna",
    staffMember (.bool true) 17 "Dan", staffMember (.bool true) 40 "Bob"]

theorem staff_ages : staffSought.Comparable staff :=
  List.forall_mem_singleton.2 ⟨.inl rfl, by
    intro item inside v given
    simp only [staff, List.mem_cons, List.not_mem_nil, or_false] at inside
    rcases inside with rfl | rfl | rfl | rfl <;> cases given <;>
      exact ⟨by rintro _ ⟨⟩; exact ⟨_, rfl⟩, nofun⟩⟩

theorem staff_texts : ∀ item ∈ staff, ∀ name ∈ staffSought.looked, ∀ v,
    Criterion.given (item.field? name) = some v → v.displayable = true := by
  have looked : staffSought.looked = ["name", "mail", "code"] := rfl
  intro item inside name among v given
  rw [looked] at among
  simp only [staff, List.mem_cons, List.not_mem_nil, or_false] at inside among
  rcases inside with rfl | rfl | rfl | rfl <;> rcases among with rfl | rfl | rfl <;>
    cases given <;> rfl

section

attribute [local instance] CharacterNames.common

/-- One is no truth value, and not everybody is of age or has the letters. -/
theorem apply_filter_staff :
    ∃ document, staffCriteria.filter = .ok document ∧
      Filter.apply document.toValue (.list staff) = .ok [staffMember (.bool true) 20 "Anna"] := by
  have own : (staffSought.criteria.map Prod.fst).Nodup := by decide
  have apart : staffSought.Apart := fun _ here _ there same =>
    List.inj_on_of_nodup_map own here there same
  have records : ∀ item ∈ staff, item.isMapping = true := by decide
  obtain ⟨document, built, applied, -⟩ :=
    apply_filter staff_asks apart (by decide) (by decide) staff_ages records
  have told : ∀ item ∈ staff, ¬ staffSought.Stuck item := fun item inside =>
    Sought.not_stuck_of_displayable (staff_texts item inside)
  have kept : staff.filter staffSought.holds = [staffMember (.bool true) 20 "Anna"] := by
    have unlike : staffSought.holds (staffMember (.int 1) 20 "Ann") = false := by decide +kernel
    have like : staffSought.holds (staffMember (.bool true) 20 "Anna") = true := by decide +kernel
    have young : staffSought.holds (staffMember (.bool true) 17 "Dan") = false := by decide +kernel
    have other : staffSought.holds (staffMember (.bool true) 40 "Bob") = false := by decide +kernel
    simp [staff, unlike, like, young, other]
  exact ⟨document, built, kept ▸ applied told⟩

/-- A text that is looked for in no field. -/
def fieldless : Criteria where
  search := .object [("q", .str "x"), ("fields", .list [])]

/-- A text that a field must have. -/
def textual : Criteria where
  regex := .object [("n", .object [("pattern", .str "x")])]

def named (v : Value) : Value := .object [("n", v)]

/-- A search in no field lets through an item although no field has the text, and there is no list
if an item has an integer in the place of the text that cannot be written. -/
theorem not_conjunction :
    (∃ document, fieldless.filter = .ok document ∧
      Filter.apply document.toValue (.list [named (.str "Bob")]) = .ok [named (.str "Bob")] ∧
      [named (.str "Bob")].filter (Sought.holds { search := some (exactX, []) }) = []) ∧
    ∃ document, textual.filter = .ok document ∧
      Filter.apply document.toValue (.list [named (.int Value.integerLimit)]) =
        .error .valueMisuse := by
  have made : Pattern.compile {} "x" = .ok exactX := rfl
  have overlong : (Value.int Value.integerLimit).displayable = false :=
    decide_eq_false (Nat.lt_irrefl _)
  let condition := operator "$regex" (.regex "x" {})
  have fails : Filter.conditionHolds condition (some (.int Value.integerLimit)) =
      .error .valueMisuse :=
    (Filter.conditionHolds_regex made _).unique (.fails ⟨_, rfl, overlong⟩)
  have stuck : Filter.holds (.object [("n", condition)]) (named (.int Value.integerLimit)) =
      .error .valueMisuse := by
    rw [Filter.holds_object rfl]
    exact (allM_singleton _ _).trans fails
  refine ⟨⟨_, rfl, rfl, rfl⟩, Entries.ofFields [("n", condition)], rfl, ?_⟩
  rw [Entries.toValue_ofFields]
  have tells : ∀ item ∈ [named (.int Value.integerLimit)],
      Tells True false (Filter.holds (.object [("n", condition)]) item) :=
    List.forall_mem_singleton.2 (stuck ▸ .fails trivial)
  exact (@Tells.filterM _ (fun _ => True) (fun _ => false) _ _ tells).2
    ⟨_, List.mem_singleton_self _, trivial⟩

end

end Criteria

end ShapeContract
