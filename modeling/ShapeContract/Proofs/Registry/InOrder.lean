import ShapeContract.Proofs.Overrides.PathOrder
import ShapeContract.Proofs.Registry.Transparency
import ShapeContract.Proofs.Wire.Open

/-!
# Requests that append in one order

Of all that a key forgets about plain overrides only the order of what is appended can be seen. If
requests that mean the same append in one order, every run answers them as a fresh registry would:
`Requests.transparent_of_inOrder`.
-/

set_option autoImplicit false

namespace ShapeContract

namespace PlainOverrides

variable {o p : PlainOverrides}

theorem reordered (same : SameMeaning o p) (appended : o.appended = p.appended) :
    Overrides.Reordered o.overrides p.overrides :=
  ⟨same.included.map _, same.excluded.map _, same.optional.map _, same.required.map _, appended⟩

/-- Documents that are the same and compile alike. -/
def SameDerivation [CharacterNames] (h : Wire.Handling) (d e : Value) : Prop :=
  Wire.SameDocument d e ∧ SameValidators (Wire.compile h d).outcome (Wire.compile h e).outcome

/-- Overrides that mean the same and append in one order derive the same. -/
theorem derive_reordered [CharacterNames] (env : Environment) (schema : Option Subject)
    (opts : ValidatorOptions)
    (same : SameMeaning o p) (appended : o.appended = p.appended) :
    Wire.SameOutcome (SameDerivation opts.handling)
      (env.derive schema o.overrides opts.allowUnknown)
      (env.derive schema p.overrides opts.allowUnknown) := by
  cases schema with
  | none =>
    exact Wire.ofOverrides_reordered opts.allowUnknown opts.handling same.included same.optional
      same.required appended
  | some s =>
    have equal : env.derive (some s) o.overrides opts.allowUnknown =
        env.derive (some s) p.overrides opts.allowUnknown := by
      simp only [Environment.derive, Overrides.apply_reordered (reordered same appended)]
    rw [equal]
    refine Wire.SameOutcome.refl (fun d => ⟨Wire.SameDocument.refl d, ?_⟩) _
    exact Wire.SameOutcome.refl Wire.SameValidator.refl _

end PlainOverrides

namespace Requests

/-- Plain requests which append in one order wherever they share a schema and append the same. -/
structure InOrder (p : Requests) : Prop where
  plain : ∀ c, p.Asked c → ∃ o : PlainOverrides, o.GivenAs c.overrides
  ordered : ∀ c c', p.Asked c → p.Asked c' → c.schema = c'.schema → ∀ o o' : PlainOverrides,
    o.GivenAs c.overrides → o'.GivenAs c'.overrides →
      Value.SameData (.object o.appended) (.object o'.appended) → o.appended = o'.appended

variable {env : Environment} {p : Requests} {c c' : Request}

/-- What a plain request reads as. -/
theorem reads_of_givenAs {o : PlainOverrides} (given : o.GivenAs c.overrides) {key : String}
    (hasKey : c.key = .ok key) : ∃ opts, c.Reads o.overrides opts key := by
  have overrides := PlainOverrides.ofValue_of_givenAs given
  unfold Request.key Overrides.keyOf at hasKey
  cases options : ValidatorOptions.ofValue c.options with
  | error e => rw [overrides, options] at hasKey; cases hasKey
  | ok opts =>
    rw [overrides, options] at hasKey
    exact ⟨opts, overrides, options, hasKey⟩

theorem alike_of_derivations [CharacterNames] {o o' : Overrides} {opts : ValidatorOptions}
    {key : String}
    (reads : c.Reads o opts key) (reads' : c'.Reads o' opts key)
    (same : Wire.SameOutcome (PlainOverrides.SameDerivation opts.handling)
      (env.derive c.schema o opts.allowUnknown) (env.derive c'.schema o' opts.allowUnknown)) :
    Alike env c c' := by
  rw [← reads.document, ← reads'.document] at same
  constructor
  · rw [emitted_fresh env c, emitted_fresh env c']
    exact same.mono fun _ _ both => both.1
  · rw [built_fresh env c, built_fresh env c', Request.validator, Request.validator,
      reads.options, reads'.options]
    exact same.bind fun _ _ both => both.2

/-- **Requests that append in one order are answered right in every run.** -/
theorem transparent_of_inOrder [CharacterNames] (env : Environment) (inOrder : p.InOrder) :
    p.Transparent env := by
  refine transparent_of_alike fun c c' asked asked' clash => ?_
  obtain ⟨o, given⟩ := inOrder.plain c asked
  obtain ⟨o', given'⟩ := inOrder.plain c' asked'
  obtain ⟨key, hasKey, hasKey'⟩ := clash.key
  obtain ⟨opts, reads⟩ := reads_of_givenAs given hasKey
  obtain ⟨opts', reads'⟩ := reads_of_givenAs given' hasKey'
  obtain rfl := Overrides.options_of_key reads.hasKey reads'.hasKey
  obtain ⟨key₁, key₂, first, second, one⟩ := PlainOverrides.key_eq_iff o o' opts opts
  have keys : key₁ = key₂ :=
    (Except.ok.inj (first.symm.trans reads.hasKey)).trans
      (Except.ok.inj (second.symm.trans reads'.hasKey)).symm
  obtain ⟨_, same⟩ := one.1 keys
  have appended := inOrder.ordered c c' asked asked' clash.schema o o' given given' same.appended
  refine alike_of_derivations reads reads' ?_
  rw [← clash.schema]
  exact PlainOverrides.derive_reordered env c.schema opts same appended

end Requests

end ShapeContract
