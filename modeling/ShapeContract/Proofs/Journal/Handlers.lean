import ShapeContract.Journal.Setup

/-!
# Handlers of the journal

A set-up goes through the handlers as they were while it takes the library's own out of the list
itself. What it has passed holds none of these, so that the one to take out is the first of its kind
in what is left; in the end the handlers of the host are left in their order. After any number of
set-ups the handler of the last one follows them, and no other one of the library is among them.
-/

set_option autoImplicit false

namespace ShapeContract

/-! ## Levels by their names -/

namespace SetupRequest

/-- The level is given by the name of one, in letters of either case. -/
def NamesLevel (r : SetupRequest) : Prop :=
  ∃ name, r.level.text? = some name ∧ Text.upper name ∈ JournalSetup.levelNames.keys

/-- The level is given by a name that means nothing to the journal. -/
def NamesNothing (r : SetupRequest) : Prop :=
  ∃ name, r.level.text? = some name ∧ Text.upper name ∉ JournalSetup.levelNames.keys ∧
    Text.upper name ∉ JournalSetup.misnomers.keys

/-- No name of a level is a misnomer as well. -/
theorem exists_levelAsked {r : SetupRequest} (named : r.NamesLevel ∨ r.NamesNothing) :
    ∃ l, r.levelAsked = .ok l := by
  have apart : ∀ name ∈ JournalSetup.levelNames.keys, name ∉ JournalSetup.misnomers.keys := by decide
  obtain ⟨name, given, proper⟩ :
      ∃ name, r.level.text? = some name ∧ Text.upper name ∉ JournalSetup.misnomers.keys := by
    rcases named with ⟨name, given, known⟩ | ⟨name, given, -, unknown⟩
    · exact ⟨name, given, apart _ known⟩
    · exact ⟨name, given, unknown⟩
  rw [levelAsked, given]
  simp only [JournalSetup.levelOf, Fields.get?_of_notMem _ proper]
  exact ⟨_, rfl⟩

end SetupRequest

namespace JournalSetup

/-- The handlers of the host. -/
def foreign (s : JournalSetup) : List Handler := s.handlers.filter fun h => !isOwn h

theorem isOwn_of_mem_foreign {s : JournalSetup} {h : Handler} (inside : h ∈ s.foreign) :
    isOwn h = false := by
  simpa using (List.mem_filter.1 inside).2

theorem isOwn_nextOwn (s : JournalSetup) (layout : Layout) : isOwn (s.nextOwn layout) = true :=
  decide_eq_true rfl

/-! ## One set-up -/

/-- What has been passed has no handler of the library any more, what is ahead is as it was. -/
theorem handlers_removeOwn_ahead {s : JournalSetup} {passed ahead : List Handler}
    (here : s.handlers = passed ++ ahead) (clean : ∀ h ∈ passed, isOwn h = false) :
    (s.removeOwn ahead).handlers = passed ++ ahead.filter fun h => !isOwn h := by
  induction ahead generalizing s passed with
  | nil => simpa [removeOwn] using here
  | cons h ahead ih =>
    cases own : isOwn h with
    | true =>
      have absent : h ∉ passed := by
        intro inside
        rw [clean h inside] at own
        cases own
      -- Equal handlers may come again later; the one taken out is the one that is looked at.
      have removed : (s.remove h).handlers = passed ++ ahead := by
        rw [remove, here, List.erase_append_right _ absent, List.erase_cons_head]
      rw [removeOwn, if_pos own, ih removed clean, List.filter_cons_of_neg (by simp [own])]
    | false =>
      have further : s.handlers = (passed ++ [h]) ++ ahead := by
        rw [here, List.append_assoc, List.singleton_append]
      have clean' : ∀ k ∈ passed ++ [h], isOwn k = false := by
        intro k inside
        rcases List.mem_append.1 inside with before | last
        · exact clean k before
        · rw [List.mem_singleton.1 last, own]
      rw [removeOwn, if_neg (by simp [own]), ih further clean', List.append_assoc,
        List.singleton_append, List.filter_cons_of_pos (by simp [own])]

theorem handlers_removeOwn (s : JournalSetup) : (s.removeOwn s.handlers).handlers = s.foreign :=
  handlers_removeOwn_ahead (List.nil_append _).symm fun _ inside => nomatch inside

/-- The new handler is put in, since none of its name is left. -/
theorem handlers_install (s : JournalSetup) (layout : Layout) :
    (s.install layout).handlers = s.foreign ++ [s.nextOwn layout] := by
  have absent : s.nextOwn layout ∉ s.foreign := by
    intro inside
    have other := isOwn_of_mem_foreign inside
    rw [isOwn_nextOwn] at other
    cases other
  rw [install, add, handlers_removeOwn, if_neg absent]

/-- A handler has taken the place of all the library had in the journal. -/
structure Installed (before : JournalSetup) (h : Handler) (after : JournalSetup) : Prop where
  only : after.own = [h]
  last : after.handlers.getLast? = some h
  foreign : after.foreign = before.foreign

/-- Whether the level is refused makes no difference to the handlers. -/
theorem handlers_configure (s : JournalSetup) (r : SetupRequest) :
    (s.configure r).1.handlers = s.foreign ++ [s.nextOwn r.layout] := by
  rw [configure]
  split <;> exact handlers_install s r.layout

theorem installed_configure (s : JournalSetup) (r : SetupRequest) :
    Installed s (s.nextOwn r.layout) (s.configure r).1 where
  only := by
    have none : s.foreign.filter isOwn = [] :=
      List.filter_eq_nil_iff.2 fun h inside => by simp [isOwn_of_mem_foreign inside]
    rw [own, handlers_configure, List.filter_append, none, List.nil_append,
      List.filter_cons_of_pos (isOwn_nextOwn s _), List.filter_nil]
  last := by rw [handlers_configure, List.getLast?_concat]
  foreign := by
    have kept : (s.foreign.filter fun h => !isOwn h) = s.foreign :=
      List.filter_eq_self.2 fun h inside => by simp [isOwn_of_mem_foreign inside]
    rw [JournalSetup.foreign, handlers_configure, List.filter_append, kept,
      List.filter_cons_of_neg (by simp [isOwn_nextOwn]), List.filter_nil, List.append_nil]

theorem configure_answers {s : JournalSetup} {r : SetupRequest}
    (named : r.NamesLevel ∨ r.NamesNothing) : (s.configure r).2 = .ok (s.nextOwn r.layout) := by
  obtain ⟨l, asked⟩ := SetupRequest.exists_levelAsked named
  rw [configure, asked]

/-! ## Set-ups one after the other -/

/-- The journal after set-ups in order, and what each of them answers. -/
def configureEach : JournalSetup → List SetupRequest → JournalSetup × List (Except Failure Handler)
  | s, [] => (s, [])
  | s, r :: rest =>
    let later := configureEach (s.configure r).1 rest
    (later.1, (s.configure r).2 :: later.2)

theorem configureEach_concat (s : JournalSetup) (rs : List SetupRequest) (r : SetupRequest) :
    configureEach s (rs ++ [r]) =
      (((configureEach s rs).1.configure r).1,
        (configureEach s rs).2 ++ [((configureEach s rs).1.configure r).2]) := by
  induction rs generalizing s with
  | nil => rfl
  | cons first rest ih => simp only [List.cons_append, configureEach, ih]

theorem foreign_configureEach (s : JournalSetup) (rs : List SetupRequest) :
    (configureEach s rs).1.foreign = s.foreign := by
  induction rs generalizing s with
  | nil => rfl
  | cons r rest ih => exact (ih _).trans (installed_configure s r).foreign

theorem configureEach_answers (s : JournalSetup) {rs : List SetupRequest}
    (named : ∀ r ∈ rs, r.NamesLevel ∨ r.NamesNothing) :
    ∀ answer ∈ (configureEach s rs).2, answer.isOk = true := by
  induction rs generalizing s with
  | nil => exact fun _ inside => nomatch inside
  | cons r rest ih =>
    obtain ⟨first, others⟩ := List.forall_mem_cons.1 named
    refine List.forall_mem_cons.2 ⟨?_, ih _ others⟩
    rw [configure_answers first]
    rfl

/-- **Set-ups never stack handlers.** Whatever handlers a journal has, after set-ups with the names
of levels or with unknown names just one handler has the library's name. It is the one that the last
set-up answers with, has the layout which that one asks for and is the last of the list; the
handlers of the host are all there in their order. -/
theorem configureEach_installed (s : JournalSetup) {rs : List SetupRequest} (called : rs ≠ [])
    (named : ∀ r ∈ rs, r.NamesLevel ∨ r.NamesNothing) :
    ∃ h, Installed s h (configureEach s rs).1 ∧ h.layout = (rs.getLast called).layout ∧
      (configureEach s rs).2.getLast? = some (.ok h) ∧
      ∀ answer ∈ (configureEach s rs).2, answer.isOk = true := by
  have answers := configureEach_answers s named
  obtain ⟨earlier, r, rfl⟩ : ∃ earlier r, rs = earlier ++ [r] :=
    ⟨_, _, (List.dropLast_concat_getLast called).symm⟩
  have before := foreign_configureEach s earlier
  have final := installed_configure (configureEach s earlier).1 r
  have answer := configure_answers (s := (configureEach s earlier).1)
    (named r (List.mem_append_right _ List.mem_cons_self))
  rw [configureEach_concat] at answers ⊢
  refine ⟨_, ⟨final.only, final.last, final.foreign.trans before⟩, ?_, ?_, answers⟩
  · rw [List.getLast_concat]
    rfl
  · rw [List.getLast?_concat, answer]

/-- The library has three handlers here, one of them twice, around two of the host. -/
def littered : JournalSetup where
  handlers :=
    [⟨2, some ownName, .json⟩, ⟨0, none, .lines "%(message)s"⟩, ⟨3, some ownName, .json⟩,
      ⟨2, some ownName, .json⟩, ⟨1, some "audit", .json⟩, ⟨4, some ownName, .lines lineTemplate⟩]
  next := 5

/-- Two set-ups, the second one with a level that is unknown. -/
theorem configureEach_installed_littered :
    let rs : List SetupRequest :=
      [{ level := .str "debug" }, { level := .str "loud", format := .str "text" }]
    let after := (configureEach littered rs).1
    rs ≠ [] ∧ (∀ r ∈ rs, r.NamesLevel ∨ r.NamesNothing) ∧
      Installed littered ⟨6, some ownName, .lines lineTemplate⟩ after ∧
      after.handlers = [⟨0, none, .lines "%(message)s"⟩, ⟨1, some "audit", .json⟩,
        ⟨6, some ownName, .lines lineTemplate⟩] := by
  intro rs after
  have called : rs ≠ [] := List.cons_ne_nil _ _
  have named : ∀ r ∈ rs, r.NamesLevel ∨ r.NamesNothing := by
    have usual : SetupRequest.NamesLevel { level := .str "debug" } := ⟨"debug", rfl, by decide⟩
    have unknown : SetupRequest.NamesNothing { level := .str "loud", format := .str "text" } :=
      ⟨"loud", rfl, by decide, by decide⟩
    exact List.forall_mem_cons.2 ⟨.inl usual, List.forall_mem_singleton.2 (.inr unknown)⟩
  obtain ⟨h, installed, -, answered, -⟩ := configureEach_installed littered called named
  obtain rfl : h = ⟨6, some ownName, .lines lineTemplate⟩ :=
    (Except.ok.inj (Option.some.inj answered)).symm
  exact ⟨called, named, installed, by decide⟩

end JournalSetup

end ShapeContract
