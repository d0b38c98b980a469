import ShapeContract.Pattern.Reader

/-!
# Compiling again

A compiled regular expression has its options from two places: those it was compiled with and those
that its own text begins with. Compiled once more from its text, with all the options that it has by
now, it is the same: the beginning of the text only adds options that are there already.
-/

set_option autoImplicit false

namespace ShapeContract.Pattern

def Mode.with (m : Mode) (f : RegexFlags) : Mode :=
  ⟨m.ignoreCase || f.ignoreCase, m.multiLine || f.multiLine, m.dotAll || f.dotAll,
    m.verbose || f.verbose, m.ascii⟩

def Settings.with (s : Settings) (f : RegexFlags) : Settings := { s with mode := s.mode.with f }

theorem Mode.with_flags (m : Mode) : m.with m.flags = m := by
  simp [Mode.with, Mode.flags]

theorem Mode.with_change (m : Mode) (f : RegexFlags) {change : FlagChange}
    (added : change.removed = []) : (m.with f).change change = (m.change change).with f := by
  simp [Mode.with, Mode.change, added, Bool.or_right_comm]

/-- Options that a text adds to are among those that it ends up with. -/
theorem Mode.with_of_with_change {m n : Mode} {change : FlagChange} (added : change.removed = [])
    (within : m.with (n.change change).flags = m) : m.with n.flags = m := by
  have absorbed (a b c : Bool) (within : (a || (b || c)) = a) : (a || b) = a := by
    cases a <;> simp_all
  simp only [Mode.change, added, List.contains_nil, Bool.not_false, Bool.and_true] at within
  have ignoreCase := absorbed _ _ _ (congrArg Mode.ignoreCase within)
  have multiLine := absorbed _ _ _ (congrArg Mode.multiLine within)
  have dotAll := absorbed _ _ _ (congrArg Mode.dotAll within)
  have verbose := absorbed _ _ _ (congrArg Mode.verbose within)
  simp only [Mode.with, Mode.flags, ignoreCase, multiLine, dotAll, verbose]

/-- Options for the whole text are never taken away. -/
theorem removed_of_whole {c : Char} {ts rest : List Token} {f : FlagChange}
    (read : flagChange? c ts = some (f, true, rest)) : f.removed = [] := by
  unfold flagChange? at read
  obtain ⟨⟨added, stop, more⟩, -, read⟩ := Option.bind_eq_some_iff.1 read
  dsimp only at read
  split at read
  · cases read
  split at read
  · cases read
    rfl
  split at read
  · cases read
  split at read
  · cases read
  · obtain ⟨⟨removed, _, after⟩, -, read⟩ := Option.bind_eq_some_iff.1 read
    dsimp only at read
    split at read
    · cases read
    split at read <;> cases read

/-- The step: with more options it is taken too, and it only adds options. -/
theorem opening_with {s t : Settings} {ts rest : List Token}
    (step : opening s ts = .ok (some (t, rest))) (f : RegexFlags) :
    opening (s.with f) ts = .ok (some (t.with f, rest)) ∧
      ∀ m : Mode, m.with t.mode.flags = m → m.with s.mode.flags = m := by
  unfold opening at step ⊢
  split at step
  next c more =>
    split at step
    next comment =>
      rw [if_pos comment]
      split at step
      next =>
        cases step
        exact ⟨rfl, fun _ within => within⟩
      next => cases step
    next code =>
      rw [if_neg code]
      split at step
      next flag =>
        rw [if_pos flag]
        split at step
        next change after read =>
          cases step
          have added := removed_of_whole read
          refine ⟨?_, fun m within => Mode.with_of_with_change added within⟩
          simp only [Settings.with, Settings.change, Mode.with_change _ f added]
        next => cases step
        next => cases step
      next => cases step
  next c more _ =>
    have verbose (on : s.mode.verbose = true) : (s.with f).mode.verbose = true := by
      simp [Settings.with, Mode.with, on]
    split at step
    next blank =>
      cases step
      rw [Bool.and_eq_true] at blank
      rw [if_pos (by simp [verbose blank.1, blank.2])]
      exact ⟨rfl, fun _ within => within⟩
    next =>
      split at step
      next sharp =>
        cases step
        obtain ⟨on, sign⟩ := Bool.and_eq_true_iff.1 sharp
        cases of_decide_eq_true sign
        have inked : isVerboseBlank '#' = false := by decide
        simp only [verbose on, inked, Bool.and_false, Bool.false_eq_true, if_false, Bool.true_and,
          decide_true, if_true]
        exact ⟨trivial, fun _ within => within⟩
      next => cases step
  next => cases step

/-- **The beginning of a text**, read again with the options that were found, is read alike. -/
theorem preamble_again {budget : Nat} {s t : Settings} {ts rest : List Token}
    (read : preamble budget s ts = .ok (t, rest)) :
    t.mode.with s.mode.flags = t.mode ∧
      preamble budget (s.with t.mode.flags) ts = .ok (t, rest) := by
  induction budget generalizing s ts with
  | zero => cases read
  | succ budget ih =>
    unfold preamble at read ⊢
    cases step : opening s ts with
    | error e => rw [step] at read; cases read
    | ok next =>
      rw [step] at read
      rcases next with _ | ⟨u, after⟩
      · cases read
        refine ⟨t.mode.with_flags, ?_⟩
        have same : t.with t.mode.flags = t := by
          simp only [Settings.with, Mode.with_flags]
        rw [same, step]
        rfl
      · obtain ⟨within, again⟩ := ih read
        obtain ⟨taken, adds⟩ := opening_with step t.mode.flags
        rw [taken]
        exact ⟨adds _ within, again⟩

/-- Options that are among others add nothing to them. -/
theorem start_with {f : RegexFlags} {m : Mode} (within : m.with (Settings.start f).mode.flags = m) :
    (Settings.start f).with m.flags = .start m.flags := by
  have ignoreCase := congrArg Mode.ignoreCase within
  have multiLine := congrArg Mode.multiLine within
  have dotAll := congrArg Mode.dotAll within
  have verbose := congrArg Mode.verbose within
  simp only [Mode.with, Mode.flags, Settings.start, Bool.or_comm] at ignoreCase multiLine dotAll verbose
  simp only [Settings.start, Settings.with, Mode.with, Mode.flags, ignoreCase, multiLine, dotAll,
    verbose]

theorem readTokens_again [CharacterNames] {f g : RegexFlags} {ts : List Token} {node : Node}
    (read : readTokens f ts = .ok (node, g)) : readTokens g ts = .ok (node, g) := by
  unfold readTokens at read ⊢
  cases opened : preamble (ts.length + 1) (.start f) ts with
  | error e => rw [opened] at read; cases read
  | ok found =>
    obtain ⟨s, rest⟩ := found
    rw [opened] at read
    cases body : expression (8 * ts.length + 8) s rest with
    | error e =>
      change (expression (8 * ts.length + 8) s rest >>= _) = _ at read
      rw [body] at read
      cases read
    | ok whole =>
      change (expression (8 * ts.length + 8) s rest >>= _) = _ at read
      rw [body] at read
      cases read
      obtain ⟨within, again⟩ := preamble_again opened
      rw [start_with within] at again
      rw [again]
      change (expression (8 * ts.length + 8) s rest >>= _) = _
      rw [body]
      rfl

/-- **A compiled regular expression compiles again** from its text, with all its options. -/
theorem compile_again [CharacterNames] {f : RegexFlags} {source : String} {p : Pattern}
    (made : compile f source = .ok p) : compile p.flags p.source = .ok p := by
  unfold compile at made
  cases read : tokens source.toList with
  | none => rw [read] at made; cases made
  | some ts =>
    rw [read] at made
    dsimp only at made
    cases reads : readTokens f ts with
    | error e => rw [reads] at made; cases made
    | ok found =>
      rw [reads] at made
      cases made
      dsimp only [compile]
      rw [read]
      dsimp only
      rw [readTokens_again reads]

end ShapeContract.Pattern
