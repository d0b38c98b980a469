import ShapeContract.Proofs.Introspection.Visit

/-!
# More levels of nesting

What introspection makes of a schema does not depend on where the schema is embedded: with at least
as many levels left its outcome is the same, unless the schema was too deep with the fewer ones.
-/

set_option autoImplicit false

namespace ShapeContract.Introspection

/-- A first outcome that may have been too deep, and a second one: the same failure, or related
results. -/
inductive UpToDepth {α β : Type} (Related : α → β → Prop) :
    Except Failure α → Except Failure β → Prop
  | tooDeep (bound : Int) (path : String) (y : Except Failure β) :
    UpToDepth Related (.error (.tooDeep bound path)) y
  | failed (e : Failure) : UpToDepth Related (.error e) (.error e)
  | done {a : α} {b : β} (related : Related a b) : UpToDepth Related (.ok a) (.ok b)

namespace UpToDepth

section

variable {α β γ δ : Type} {Related : α → β → Prop} {Other : γ → δ → Prop} {x : Except Failure α}
  {y : Except Failure β}

theorem bind {f : α → Except Failure γ} {g : β → Except Failure δ} (first : UpToDepth Related x y)
    (next : ∀ a b, Related a b → UpToDepth Other (f a) (g b)) :
    UpToDepth Other (x >>= f) (y >>= g) := by
  cases first with
  | tooDeep bound path y => exact .tooDeep bound path _
  | failed e => exact .failed e
  | done related => exact next _ _ related

theorem map {f : α → γ} {g : β → δ} (first : UpToDepth Related x y)
    (next : ∀ a b, Related a b → Other (f a) (g b)) : UpToDepth Other (x.map f) (y.map g) := by
  cases first with
  | tooDeep bound path y => exact .tooDeep bound path _
  | failed e => exact .failed e
  | done related => exact .done (next _ _ related)

theorem mono {Weaker : α → β → Prop} (first : UpToDepth Related x y)
    (weaker : ∀ a b, Related a b → Weaker a b) : UpToDepth Weaker x y := by
  cases first with
  | tooDeep bound path y => exact .tooDeep bound path _
  | failed e => exact .failed e
  | done related => exact .done (weaker _ _ related)

/-- More can be said of results once it is known what they are the results of. -/
theorem imp {More : α → β → Prop} (first : UpToDepth Related x y)
    (more : ∀ a b, x = .ok a → y = .ok b → Related a b → More a b) : UpToDepth More x y := by
  cases first with
  | tooDeep bound path y => exact .tooDeep bound path _
  | failed e => exact .failed e
  | done related => exact .done (more _ _ rfl rfl related)

end

section

variable {α β : Type} {x y : Except Failure α}

theorem refl {Related : α → α → Prop} (same : ∀ a, Related a a) (x : Except Failure α) :
    UpToDepth Related x x := by
  cases x with
  | error e => exact .failed e
  | ok a => exact .done (same a)

/-- One step after the other, with the same results before each. -/
theorem andThen {f g : α → Except Failure β} (first : UpToDepth Eq x y)
    (next : ∀ a, UpToDepth Eq (f a) (g a)) : UpToDepth Eq (x >>= f) (y >>= g) :=
  first.bind fun a _ same => same ▸ next a

theorem foldlM {γ : Type} {f g : β → γ → Traced β}
    (step : ∀ b c, UpToDepth Eq (f b c).outcome (g b c).outcome) (cs : List γ) (b : β) :
    UpToDepth Eq (cs.foldlM f b).outcome (cs.foldlM g b).outcome := by
  induction cs generalizing b with
  | nil => exact .done rfl
  | cons c rest ih =>
    rw [List.foldlM_cons, List.foldlM_cons, Traced.outcome_bind, Traced.outcome_bind]
    exact (step b c).andThen ih

end

end UpToDepth

/-! ## Rules -/

section Rules

variable {descend descend' : Target → Traced Rule}
  (below : ∀ target, UpToDepth Eq (descend target).outcome (descend' target).outcome)

include below

theorem upToDepth_itemsRule (c : Descriptor) :
    UpToDepth Eq (itemsRule descend c).outcome (itemsRule descend' c).outcome := by
  unfold itemsRule
  simp only [Traced.outcome_bind, Traced.outcome_lift]
  refine (UpToDepth.refl (fun _ => rfl) _).andThen fun type => ?_
  refine (UpToDepth.refl (fun _ => rfl) _).andThen fun opts => ?_
  refine (UpToDepth.refl (fun _ => rfl) _).andThen fun facets => ?_
  cases Target.of? c with
  | none => exact .done rfl
  | some target =>
    simp only [Traced.outcome_bind]
    exact (below target).andThen fun _ => .done rfl

theorem upToDepth_ruleOf (d : Descriptor) :
    UpToDepth Eq (ruleOf descend d).outcome (ruleOf descend' d).outcome := by
  unfold ruleOf
  simp only [Traced.outcome_bind, Traced.outcome_lift]
  refine (UpToDepth.refl (fun _ => rfl) _).andThen fun type => ?_
  refine (UpToDepth.refl (fun _ => rfl) _).andThen fun opts => ?_
  refine (UpToDepth.refl (fun _ => rfl) _).andThen fun facets => ?_
  cases Target.of? d with
  | none =>
    split
    next caster _ =>
      simp only [Traced.outcome_bind]
      exact (upToDepth_itemsRule below caster).andThen fun _ => .done rfl
    next => exact .done rfl
  | some target =>
    split
    next caster _ =>
      simp only [Traced.outcome_bind]
      refine (upToDepth_itemsRule below caster).andThen fun _ => ?_
      exact (below target).andThen fun _ => .done rfl
    next =>
      simp only [Traced.outcome_bind]
      exact (below target).andThen fun _ => .done rfl

end Rules

/-! ## Schemas -/

/-- **A schema that is not too deep has one tree**, wherever there are as many levels left. -/
theorem upToDepth_walk (catalog : Catalog) (bound : Int) (levels : Nat) :
    ∀ {levels' depth depth' : Nat} {path path' : String} (target : Target), levels ≤ levels' →
      UpToDepth Eq (walk catalog bound depth path levels target).outcome
        (walk catalog bound depth' path' levels' target).outcome := by
  induction levels with
  | zero => exact fun _ _ => .tooDeep bound _ _
  | succ levels ih =>
    intro levels' depth depth' path path' target more
    obtain ⟨levels', rfl⟩ := Nat.exists_eq_succ_of_ne_zero (Nat.ne_zero_of_lt more)
    rw [walk_succ, walk_succ]
    simp only [Traced.outcome_bind, Traced.outcome_lift, outcome_visitAll_eq]
    refine (UpToDepth.refl (fun _ => rfl) _).andThen fun entries => ?_
    refine UpToDepth.foldlM (fun tree e => ?_) entries Rule.empty
    unfold visit
    simp only [Traced.outcome_bind, Traced.outcome_lift]
    refine (UpToDepth.refl (fun _ => rfl) _).andThen fun d => ?_
    -- The path in the failures differs, but of a schema that is too deep nothing is said.
    have below : ∀ target, UpToDepth Eq
        (walk catalog bound (depth + 1) (path ++ e.1 ++ ".") levels target).outcome
        (walk catalog bound (depth' + 1) (path' ++ e.1 ++ ".") levels' target).outcome :=
      fun target => ih target (Nat.le_of_succ_le_succ more)
    exact (upToDepth_ruleOf below d).andThen fun _ => .done rfl

end ShapeContract.Introspection
