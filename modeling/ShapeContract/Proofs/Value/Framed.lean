import ShapeContract.Overrides.Key
import ShapeContract.Proofs.Value.Canonical

/-!
# Canonical texts of any values

The canonical text of any value, plain or not, is read apart from what follows it. So a key tells
which flags it was made with, whatever stands in the overrides: `Overrides.options_of_key`.
-/

set_option autoImplicit false

namespace ShapeContract

namespace Value

/-- The text of a name and what is written after it. -/
def entryText (e : String × List Char) : List Char :=
  (Text.jsonQuoted true e.1).toList ++ ':' :: e.2

/-- Texts as they are written: words and numbers, quoted texts, lists and mappings of texts. -/
inductive IsText : List Char → Prop
  | word (t : List Char) (some : t ≠ []) (unmarked : ∀ c ∈ t, c ∉ marks) : IsText t
  | quoted (s : String) : IsText (Text.jsonQuoted true s).toList
  | list (ts : List (List Char)) (parts : ∀ t ∈ ts, IsText t) : IsText ('[' :: commas ts ++ [']'])
  | object (es : Fields (List Char)) (parts : ∀ e ∈ es, IsText e.2) :
    IsText ('\x7b' :: commas (es.map entryText) ++ ['\x7d'])

namespace IsText

theorem kindOf_quoted (s : String) (rest : List Char) :
    kindOf ((Text.jsonQuoted true s).toList ++ rest) = 1 := kindOf_str s rest

theorem starts {t : List Char} (text : IsText t) : Starts t := by
  cases text with
  | word _ some unmarked => exact starts_word some unmarked
  | quoted s =>
    have text := Text.toList_jsonQuoted s []
    rw [List.append_nil] at text
    exact ⟨'"', _, text, by decide⟩
  | list ts _ => exact ⟨'[', _, rfl, by decide⟩
  | object es _ => exact ⟨'\x7b', _, rfl, by decide⟩

theorem entry_apart {e f : String × List Char} (apart : Apart e.2 f.2 (e.2 = f.2)) :
    Apart (entryText e) (entryText f) (e = f) := by
  intro rest more endsR endsM same
  simp only [entryText, List.append_assoc, List.cons_append] at same
  obtain ⟨names, values⟩ := Text.jsonQuoted_append_inj same
  obtain ⟨texts, ends⟩ := apart rest more endsR endsM (List.cons.inj values).2
  exact ⟨Prod.ext names texts, ends⟩

theorem starts_entryText (e : String × List Char) : Starts (entryText e) :=
  ⟨'"', _, Text.toList_jsonQuoted e.1 _, by decide⟩

/-- **A text is read apart from what follows it.** -/
theorem apart {t : List Char} (text : IsText t) : ∀ {u : List Char}, IsText u → Apart t u (t = u) := by
  induction text with
  | word t some unmarked =>
    intro u other rest more endsR endsM same
    have kinds := congrArg kindOf same
    rw [kindOf_word some unmarked] at kinds
    cases other with
    | word _ _ unmarkedU => exact word_apart unmarked unmarkedU rest more endsR endsM same
    | quoted s => rw [kindOf_quoted] at kinds; cases kinds
    | list us _ => cases kinds
    | object es _ => cases kinds
  | quoted s =>
    intro u other rest more endsR endsM same
    have kinds := congrArg kindOf same
    rw [kindOf_quoted] at kinds
    cases other with
    | word _ someU unmarkedU => rw [kindOf_word someU unmarkedU] at kinds; cases kinds
    | quoted s' =>
      obtain ⟨rfl, ends⟩ := Text.jsonQuoted_append_inj same
      exact ⟨rfl, ends⟩
    | list us _ => cases kinds
    | object es _ => cases kinds
  | list ts parts ih =>
    intro u other rest more endsR endsM same
    have kinds := congrArg kindOf same
    cases other with
    | word _ someU unmarkedU => rw [kindOf_word someU unmarkedU] at kinds; cases kinds
    | quoted s => rw [kindOf_quoted] at kinds; cases kinds
    | list us partsU =>
      simp only [List.cons_append, List.append_assoc, List.cons.injEq, true_and,
        List.nil_append] at same
      rw [← List.map_id ts, ← List.map_id us] at same
      obtain ⟨pairs, ends⟩ := commas_append_inj (by decide) ts us
        (fun t inside => (parts t inside).starts) (fun u inside => (partsU u inside).starts)
        (fun t inT u inU => ih t inT (partsU u inU)) same
      rw [List.forall₂_eq_eq_eq] at pairs
      exact ⟨pairs ▸ rfl, ends⟩
    | object es _ => cases kinds
  | object es parts ih =>
    intro u other rest more endsR endsM same
    have kinds := congrArg kindOf same
    cases other with
    | word _ someU unmarkedU => rw [kindOf_word someU unmarkedU] at kinds; cases kinds
    | quoted s => rw [kindOf_quoted] at kinds; cases kinds
    | list us _ => cases kinds
    | object fs partsF =>
      simp only [List.cons_append, List.append_assoc, List.cons.injEq, true_and,
        List.nil_append] at same
      obtain ⟨pairs, ends⟩ := commas_append_inj (by decide) es fs
        (fun e _ => starts_entryText e) (fun e _ => starts_entryText e)
        (fun e inE f inF => entry_apart (ih e inE (partsF f inF))) same
      rw [List.forall₂_eq_eq_eq] at pairs
      exact ⟨pairs ▸ rfl, ends⟩

end IsText

theorem jsonMembers_eq (members : Fields String) :
    (jsonMembers .canonical members).toList =
      '\x7b' :: commas ((members.sorted.mapValues String.toList).map entryText) ++ ['\x7d'] := by
  have written : jsonMembers .canonical members =
      inBraces (Text.join "," (members.sorted.map fun e =>
        Text.jsonQuoted true e.1 ++ ":" ++ e.2)) := rfl
  have parts : (members.sorted.map fun e => Text.jsonQuoted true e.1 ++ ":" ++ e.2).map
      String.toList = (members.sorted.mapValues String.toList).map entryText := by
    rw [Fields.mapValues, List.map_map, List.map_map]
    refine List.map_congr_left ?_
    intro e _
    simp [entryText]
  rw [written, inBraces, Text.join, String.toList_append, String.toList_append,
    String.toList_intercalate, parts]
  rfl

theorem isText_members {members : Fields String} (parts : ∀ e ∈ members, IsText e.2.toList) :
    IsText (jsonMembers .canonical members).toList := by
  rw [jsonMembers_eq]
  refine .object _ ?_
  intro e inside
  obtain ⟨f, inF, rfl⟩ := List.mem_map.1 inside
  exact parts f ((Fields.sorted_perm members).mem_iff.1 inF)

theorem isText_scalar {v : Value} (scalar : IsScalar v) : IsText (canonical v) :=
  .word _ (scalar_text scalar).1 (scalar_text scalar).2

mutual

/-- The canonical text of every value is such a text. -/
theorem isText_canonical : ∀ v : Value, IsText (canonical v)
  | .null => isText_scalar .null
  | .bool true => isText_scalar .yes
  | .bool false => isText_scalar .no
  | .int i => isText_scalar (.int i)
  | .float .nan => .word _ (by decide +kernel) (forall_of_all (by decide +kernel))
  | .float (.infinite n) => isText_scalar (.infinite n)
  | .float (.finite n u rep) => isText_scalar (.finite n u rep)
  | .str s => .quoted s
  | .list vs => by
    rw [canonical_list]
    refine .list _ ?_
    intro t inside
    obtain ⟨v, inV, rfl⟩ := List.mem_map.1 inside
    exact isText_all vs v inV
  | .tuple vs => by
    have written : canonical (.tuple vs) = canonical (.list vs) := rfl
    rw [written, canonical_list]
    refine .list _ ?_
    intro t inside
    obtain ⟨v, inV, rfl⟩ := List.mem_map.1 inside
    exact isText_all vs v inV
  | .object fs => by
    have written : canonical (.object fs) =
        (jsonMembers .canonical (jsonFields .canonical fs)).toList := rfl
    rw [written, jsonFields_eq]
    refine isText_members ?_
    intro e inside
    obtain ⟨f, inF, rfl⟩ := List.mem_map.1 inside
    exact isText_fields fs f inF
  | .mapping ks vs => by
    have written : canonical (.mapping ks vs) =
        (jsonMembers .canonical ((ks.map jsonKey).zip (jsonAll .canonical vs))).toList := rfl
    rw [written, jsonAll_eq]
    refine isText_members ?_
    intro e inside
    obtain ⟨v, inV, same⟩ := List.mem_map.1 (List.of_mem_zip inside).2
    rw [← same]
    exact isText_all vs v inV
  | .set _ => .quoted _
  | .native _ => .quoted _
  | .enumeration _ _ _ => .quoted _
  | .member _ _ _ _ => .quoted _
  | .regex _ _ => .quoted _
  | .date _ => .quoted _
  | .datetime _ => .quoted _
  | .rule _ => .quoted _
  | .source _ => .quoted _
  | .callable => .quoted _

theorem isText_all : ∀ vs : List Value, ∀ v ∈ vs, IsText (canonical v)
  | [], _, inside => nomatch inside
  | v :: vs, w, inside => by
    rcases List.mem_cons.1 inside with first | later
    · rw [first]
      exact isText_canonical v
    · exact isText_all vs w later

theorem isText_fields : ∀ fs : List (String × Value), ∀ e ∈ fs, IsText (canonical e.2)
  | [], _, inside => nomatch inside
  | (k, v) :: fs, e, inside => by
    rcases List.mem_cons.1 inside with first | later
    · rw [first]
      exact isText_canonical v
    · exact isText_fields fs e later

end

theorem canonical_fields (fs : Fields Value) :
    canonical (.object fs) =
      '\x7b' :: commas (((Fields.sorted fs).mapValues canonical).map entryText) ++ ['\x7d'] := by
  rw [canonical_object, Fields.mapValues, List.map_map]
  rfl

/-- Mappings with one text have values of one text under every name. -/
theorem canonical_of_name {fs gs : Fields Value} (own : gs.keys.Nodup)
    (same : canonical (.object fs) = canonical (.object gs)) (name : String) {x y : Value}
    (inF : fs.get? name = some x) (inG : gs.get? name = some y) : canonical x = canonical y := by
  have texts : ∀ hs : Fields Value, ∀ e ∈ (Fields.sorted hs).mapValues canonical, IsText e.2 := by
    intro hs e inside
    obtain ⟨f, _, rfl⟩ := List.mem_map.1 inside
    exact isText_canonical f.2
  have entries : (Fields.sorted fs).mapValues canonical = (Fields.sorted gs).mapValues canonical := by
    rw [canonical_fields, canonical_fields] at same
    simp only [List.cons_append, List.cons.injEq, true_and] at same
    have pairs := (commas_append_inj (show '\x7d' ∈ [']', '\x7d'] by decide) _ _
      (fun e _ => IsText.starts_entryText e) (fun e _ => IsText.starts_entryText e)
      (fun e inE f inF => IsText.entry_apart ((texts fs e inE).apart (texts gs f inF))) same).1
    rwa [List.forall₂_eq_eq_eq] at pairs
  have there : (name, canonical x) ∈ (Fields.sorted gs).mapValues canonical := by
    rw [← entries]
    exact List.mem_map.2 ⟨(name, x), (Fields.sorted_perm fs).mem_iff.2 (Fields.mem_of_get? inF), rfl⟩
  obtain ⟨f, inside, shape⟩ := List.mem_map.1 there
  have inGs : f ∈ gs := (Fields.sorted_perm gs).mem_iff.1 inside
  obtain ⟨names, values⟩ := Prod.mk.inj shape
  have which := Fields.eq_of_mem_of_nodup own inGs (Fields.mem_of_get? inG) names
  rw [which] at values
  exact values.symm

end Value

namespace Overrides

/-- What a key is the text of. -/
theorem key_eq_ok {o : Overrides} {opts : ValidatorOptions} {key : String}
    (made : o.key opts = .ok key) :
    ∃ included excluded optional required appended,
      key = (Value.object [("include", included), ("exclude", excluded), ("optional", optional),
        ("required", required), ("append", appended), ("allowUnknown", .bool opts.allowUnknown),
        ("coerceTypes", .bool opts.coerceTypes)]).json .canonical := by
  unfold Overrides.key at made
  cases inc : keyList o.included with
  | error e => rw [inc] at made; cases made
  | ok included =>
    cases exc : keyList o.excluded with
    | error e => rw [inc, exc] at made; cases made
    | ok excluded =>
      cases opt : keyList o.optional with
      | error e => rw [inc, exc, opt] at made; cases made
      | ok optional =>
        cases req : keyList o.required with
        | error e => rw [inc, exc, opt, req] at made; cases made
        | ok required =>
          rw [inc, exc, opt, req] at made
          simp only [bind, Except.bind, pure, Except.pure] at made
          split at made
          · cases made
          · cases made
            exact ⟨included, excluded, optional, required, _, rfl⟩

/-- **A key tells the flags** that it was made with. -/
theorem options_of_key {o p : Overrides} {opts opts' : ValidatorOptions} {key : String}
    (first : o.key opts = .ok key) (second : p.key opts' = .ok key) : opts = opts' := by
  obtain ⟨inc, exc, opt, req, app, rfl⟩ := key_eq_ok first
  obtain ⟨inc', exc', opt', req', app', same⟩ := key_eq_ok second
  have own : ∀ a b c d e f g : Value, (Fields.keys [("include", a), ("exclude", b), ("optional", c),
      ("required", d), ("append", e), ("allowUnknown", f), ("coerceTypes", g)]).Nodup := by
    intro a b c d e f g
    show ["include", "exclude", "optional", "required", "append", "allowUnknown",
      "coerceTypes"].Nodup
    decide
  have flag : ∀ b c : Bool, Value.canonical (.bool b) = Value.canonical (.bool c) → b = c := by
    decide +kernel
  have texts := congrArg String.toList same
  have distinct := own inc' exc' opt' req' app' (.bool opts'.allowUnknown) (.bool opts'.coerceTypes)
  have unknown := flag _ _ (Value.canonical_of_name distinct texts "allowUnknown" rfl rfl)
  have coerce := flag _ _ (Value.canonical_of_name distinct texts "coerceTypes" rfl rfl)
  obtain ⟨c, u⟩ := opts
  obtain ⟨c', u'⟩ := opts'
  exact congr (congrArg _ coerce) unknown

end Overrides

end ShapeContract
