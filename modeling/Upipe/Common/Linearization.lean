import Upipe.Common.Runs

/-!
# Calls that overlap

Processes share an object and call its operations in several steps each. A sequential object says how calls that
follow one another may be answered: `SequentialRun` is the list of such calls with their answers. The calls of a run are
linearizable when each takes effect in one step between its first and its last. `Along.linearizes` is the rule for
systems in which this is the step that returns: the calls, in the order in which they returned, are then legal for the
sequential object, and of two calls the one that returned before the other began comes first.
-/

namespace Upipe.Common

section Sequential

variable {τ ο α : Type*} (answers : τ → ο → α → τ → Prop)

/-- Calls one after the other, with their answers, from the first state to the last. -/
inductive SequentialRun (t : τ) : List (ο × α) → τ → Prop where
  | nil : SequentialRun t [] t
  | concat {u v : τ} {calls : List (ο × α)} {call : ο} {answer : α} (before : SequentialRun t calls u)
      (last : answers u call answer v) : SequentialRun t (calls ++ [(call, answer)]) v

end Sequential

section Runs

variable {σ ε τ ο α : Type*} {step : σ → ε → Option σ} {answers : τ → ο → α → τ → Prop}

/-- A step that returns no call leaves the sequential object as it is, and one that returns a call lets it answer. -/
inductive Returns (answers : τ → ο → α → τ → Prop) (returned returned' : List (ο × α)) (t t' : τ) : Prop where
  | none (hreturned : returned' = returned) (ht : t' = t)
  | one (call : ο) (answer : α) (hreturned : returned' = returned ++ [(call, answer)]) (ht : answers t call answer t')

/-- A step goes on with the calls that have returned. -/
theorem SequentialRun.returns {returned returned' : List (ο × α)} {t u v : τ}
    (h : SequentialRun answers t returned u) (hreturns : Returns answers returned returned' u v) :
    SequentialRun answers t returned' v := by
  cases hreturns with
  | none hreturned hv =>
    obtain rfl := hv
    exact hreturned ▸ h
  | one call answer hreturned hv => exact hreturned ▸ h.concat hv

/-- The calls of a run that has been guarded all along, in the order in which they returned. -/
theorem Along.linearizes {returned : σ → List (ο × α)} {R : σ → τ → Prop} {guard : σ → ε → Prop}
    (hstep : ∀ s t e s', R s t → guard s e → step s e = some s' →
      ∃ t', Returns answers (returned s) (returned s') t t' ∧ R s' t')
    {s s' : σ} {t : τ} (hR : R s t) (hnone : returned s = []) {events : List ε} (hguard : Along step guard s events)
    (hrun : runFrom step s events = some s') : ∃ t', SequentialRun answers t (returned s') t' ∧ R s' t' := by
  have hkeep : ∀ u e u', (∃ t', SequentialRun answers t (returned u) t' ∧ R u t') → guard u e → step u e = some u' →
      ∃ t', SequentialRun answers t (returned u') t' ∧ R u' t' := by
    rintro u e u' ⟨t₁, hlegal, hR₁⟩ hg hu'
    obtain ⟨t₂, hreturns, hR₂⟩ := hstep u t₁ e u' hR₁ hg hu'
    exact ⟨t₂, hlegal.returns hreturns, hR₂⟩
  exact hguard.invariant hkeep ⟨t, hnone ▸ SequentialRun.nil, hR⟩ hrun

end Runs

end Upipe.Common
