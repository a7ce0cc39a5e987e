import Mathlib.Data.List.MinMax

/-!
# The first maximum of a list

A loop that keeps the largest element so far, and changes it for a strictly larger one only, ends with the first
of the maxima, which is `List.argmax`. `exists_argmax_iff` says when that one has a property: some element with
the property has to be ahead of all that do not have it.
-/

namespace Upipe.Common

variable {α β : Type*} [LinearOrder β]

/-- One turn of a loop over a list that keeps the largest element so far. -/
def keepLarger (f : α → β) : Option α → α → Option α
  | none, x => some x
  | some most, x => if f most < f x then some x else some most

theorem foldl_keepLarger (f : α → β) (xs : List α) : xs.foldl (keepLarger f) none = xs.argmax f := by
  have hturn : keepLarger f = List.argAux fun b c => f c < f b := by
    funext most x
    cases most with
    | none => rfl
    | some most => rfl
  rw [hturn, List.argmax]

theorem mem_of_foldl_keepLarger {f : α → β} {xs : List α} {x : α} (h : xs.foldl (keepLarger f) none = some x) :
    x ∈ xs := by
  rw [foldl_keepLarger] at h
  exact List.argmax_mem h

variable [DecidableEq α] {P : α → Prop} {f : α → β} {xs : List α}

/-- The element has the property, and every element without it is smaller, or as large and further behind. -/
def Ahead (P : α → Prop) (f : α → β) (xs : List α) (x : α) : Prop :=
  P x ∧ ∀ y ∈ xs, ¬ P y → f y < f x ∨ f y = f x ∧ xs.idxOf x < xs.idxOf y

instance [DecidablePred P] (x : α) : Decidable (Ahead P f xs x) := inferInstanceAs (Decidable (_ ∧ _))

/-- The first maximum has a property exactly when some element is ahead of all without it. -/
theorem exists_argmax_iff : (∃ x, xs.argmax f = some x ∧ P x) ↔ ∃ x ∈ xs, Ahead P f xs x := by
  constructor
  · rintro ⟨x, hx, hP⟩
    obtain ⟨hmem, hle, hfirst⟩ := List.argmax_eq_some_iff.mp hx
    refine ⟨x, hmem, hP, fun y hy hnot => ?_⟩
    rcases lt_or_eq_of_le (hle y hy) with hlt | heq
    · exact Or.inl hlt
    · have hne : xs.idxOf x ≠ xs.idxOf y := fun hidx => hnot ((List.idxOf_inj hmem).mp hidx ▸ hP)
      exact Or.inr ⟨heq, lt_of_le_of_ne (hfirst y hy heq.ge) hne⟩
  · rintro ⟨x, hmem, hP, hahead⟩
    cases hmax : xs.argmax f with
    | none =>
      rw [List.argmax_eq_none.mp hmax] at hmem
      cases hmem
    | some m =>
      obtain ⟨hm, hle, hfirst⟩ := List.argmax_eq_some_iff.mp hmax
      refine ⟨m, rfl, ?_⟩
      by_contra hnot
      -- a maximum without the property is behind the one that is ahead
      rcases hahead m hm hnot with hlt | ⟨heq, hidx⟩
      · exact absurd (hle x hmem) (not_le.mpr hlt)
      · exact absurd (hfirst x hmem heq.le) (not_le.mpr hidx)

end Upipe.Common
