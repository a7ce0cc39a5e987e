import Mathlib.Data.Nat.Notation
import Mathlib.Logic.Relation
import Mathlib.Tactic.Common

/-!
# Runs of a transition system

A system is a partial step function over states and events: an event that is not enabled has no
successor. `Along step P s events` says that `P` holds of every step of the run of `events` from `s`,
up to the first event that is not enabled. `Along.of_invariant` is the rule for safety under a guard: an
invariant kept by every guarded step turns a guard that holds along a run into a property that does.
-/

namespace Upipe.Common

section Runs

variable {σ ε : Type*} (step : σ → ε → Option σ)

/-- `P` holds of every state and event of the run. -/
def Along (P : σ → ε → Prop) : σ → List ε → Prop
  | _, [] => True
  | s, e :: events => P s e ∧ ∀ s', step s e = some s' → Along P s' events

/-- The state at the end of a run, when every event was enabled. -/
def runFrom : σ → List ε → Option σ
  | s, [] => some s
  | s, e :: events => (step s e).bind fun s' => runFrom s' events

instance decAlong (P : σ → ε → Prop) [∀ s e, Decidable (P s e)] :
    ∀ s events, Decidable (Along step P s events)
  | _, [] => isTrue trivial
  | s, e :: events =>
      have : Decidable (∀ s', step s e = some s' → Along step P s' events) :=
        match step s e with
        | none => isTrue (fun _ h => nomatch h)
        | some s' =>
            have := decAlong P s' events
            decidable_of_iff (Along step P s' events)
              ⟨fun h _ he => Option.some.inj he ▸ h, fun h => h s' rfl⟩
      inferInstanceAs (Decidable (_ ∧ _))

variable {step}

/-- A run in two parts. -/
theorem runFrom_append (s : σ) (xs ys : List ε) :
    runFrom step s (xs ++ ys) = (runFrom step s xs).bind fun t => runFrom step t ys := by
  induction xs generalizing s with
  | nil => rfl
  | cons e xs ih =>
    rw [List.cons_append, runFrom, runFrom, Option.bind_assoc]
    simp only [ih]

/-- A run that is known by its first step. -/
theorem Along.cons {P : σ → ε → Prop} {s s' : σ} {e : ε} {events : List ε} (hP : P s e) (hstep : step s e = some s')
    (hrest : Along step P s' events) : Along step P s (e :: events) := by
  refine ⟨hP, fun t ht => ?_⟩
  obtain rfl := Option.some.inj (hstep.symm.trans ht)
  exact hrest

/-- What holds along a run holds of its last step. -/
theorem Along.last {P : σ → ε → Prop} {s t : σ} {events : List ε} {e : ε}
    (h : Along step P s (events ++ [e])) (hrun : runFrom step s events = some t) : P t e := by
  induction events generalizing s with
  | nil => exact Option.some.inj hrun ▸ h.1
  | cons e' events ih =>
    obtain ⟨s', hstep, hrest⟩ := Option.bind_eq_some_iff.mp hrun
    exact ih (h.2 s' hstep) hrest

/-- Two properties that hold along a run hold along it together. -/
theorem Along.and {P Q : σ → ε → Prop} {s : σ} {events : List ε} (hP : Along step P s events)
    (hQ : Along step Q s events) : Along step (fun s e => P s e ∧ Q s e) s events := by
  induction events generalizing s with
  | nil => exact trivial
  | cons e events ih =>
    exact ⟨⟨hP.1, hQ.1⟩, fun s' hstep => ih (hP.2 s' hstep) (hQ.2 s' hstep)⟩

/-- Safety under a guard. -/
theorem Along.of_invariant (Inv : σ → Prop) {guard safe : σ → ε → Prop}
    (hkeep : ∀ s e s', Inv s → guard s e → step s e = some s' → Inv s')
    (hsafe : ∀ s e, Inv s → guard s e → safe s e) {s : σ} (hs : Inv s) {events : List ε}
    (hrun : Along step guard s events) : Along step safe s events := by
  induction events generalizing s with
  | nil => exact trivial
  | cons e events ih =>
    obtain ⟨hg, hrest⟩ := hrun
    refine ⟨hsafe s e hs hg, ?_⟩
    intro s' hstep
    exact ih (hkeep s e s' hs hg hstep) (hrest s' hstep)

/-- Two properties of a step that agree under an invariant hold along the same runs, when the one of them
keeps the invariant. -/
theorem Along.iff_of_kept (Inv : σ → Prop) {P Q : σ → ε → Prop} {events : List ε}
    (hkeep : ∀ s, ∀ e ∈ events, ∀ s', Inv s → P s e → step s e = some s' → Inv s')
    (hiff : ∀ s, ∀ e ∈ events, Inv s → (P s e ↔ Q s e)) {s : σ} (hs : Inv s) :
    Along step P s events ↔ Along step Q s events := by
  induction events generalizing s with
  | nil => exact Iff.rfl
  | cons e events ih =>
    have hrest : ∀ {t}, Inv t → (Along step P t events ↔ Along step Q t events) := fun ht =>
      ih (fun s e he => hkeep s e (List.mem_cons_of_mem _ he))
        (fun s e he => hiff s e (List.mem_cons_of_mem _ he)) ht
    rw [Along, Along, ← hiff s e List.mem_cons_self hs]
    apply and_congr_right
    intro hP
    constructor
    · intro h s' hstep
      exact (hrest (hkeep s e List.mem_cons_self s' hs hP hstep)).mp (h s' hstep)
    · intro h s' hstep
      exact (hrest (hkeep s e List.mem_cons_self s' hs hP hstep)).mpr (h s' hstep)

/-- Two properties of a step that agree under an invariant of every step hold along the same runs. -/
theorem Along.iff_of_invariant (Inv : σ → Prop) {P Q : σ → ε → Prop}
    (hkeep : ∀ s e s', Inv s → step s e = some s' → Inv s')
    (hiff : ∀ s e, Inv s → (P s e ↔ Q s e)) {s : σ} (hs : Inv s) {events : List ε} :
    Along step P s events ↔ Along step Q s events :=
  Along.iff_of_kept Inv (fun s e _ s' hs _ hstep => hkeep s e s' hs hstep) (fun s e _ => hiff s e) hs

/-- What every step keeps holds at the end of a run. -/
theorem runFrom_invariant {Inv : σ → Prop}
    (hkeep : ∀ s e s', Inv s → step s e = some s' → Inv s') {s t : σ} (hs : Inv s)
    {events : List ε} (hrun : runFrom step s events = some t) : Inv t := by
  induction events generalizing s with
  | nil => exact Option.some.inj hrun ▸ hs
  | cons e events ih =>
    obtain ⟨s', hstep, hrest⟩ := Option.bind_eq_some_iff.mp hrun
    exact ih (hkeep s e s' hs hstep) hrest

/-- What the steps of the events of a run keep holds at its end. -/
theorem runFrom_kept {Inv : σ → Prop} {s t : σ} {events : List ε}
    (hkeep : ∀ s, ∀ e ∈ events, ∀ s', Inv s → step s e = some s' → Inv s') (hs : Inv s)
    (hrun : runFrom step s events = some t) : Inv t := by
  induction events generalizing s with
  | nil => exact Option.some.inj hrun ▸ hs
  | cons e events ih =>
    obtain ⟨s', hstep, hrest⟩ := Option.bind_eq_some_iff.mp hrun
    exact ih (fun s e he => hkeep s e (List.mem_cons_of_mem _ he)) (hkeep s e List.mem_cons_self s' hs hstep) hrest

/-- A run that goes through an event, split there. -/
theorem runFrom_split {s t : σ} {xs ys : List ε} {e : ε} (hrun : runFrom step s (xs ++ e :: ys) = some t) :
    ∃ s₁ s₂, runFrom step s xs = some s₁ ∧ step s₁ e = some s₂ ∧ runFrom step s₂ ys = some t := by
  rw [runFrom_append] at hrun
  obtain ⟨s₁, hxs, hrun⟩ := Option.bind_eq_some_iff.mp hrun
  obtain ⟨s₂, hstep, hys⟩ := Option.bind_eq_some_iff.mp hrun
  exact ⟨s₁, s₂, hxs, hstep, hys⟩

/-- A run is followed by a system that follows each of its steps. -/
theorem runFrom_follows {τ δ : Type*} {follower : τ → δ → Option τ} {f : ε → δ} {R : σ → τ → Prop}
    (hfollow : ∀ s a e s', R s a → step s e = some s' → ∃ a', follower a (f e) = some a' ∧ R s' a') {s t : σ}
    {a : τ} (hR : R s a) {events : List ε} (hrun : runFrom step s events = some t) :
    ∃ b, runFrom follower a (events.map f) = some b ∧ R t b := by
  induction events generalizing s a with
  | nil =>
    obtain rfl := Option.some.inj hrun
    exact ⟨a, rfl, hR⟩
  | cons e events ih =>
    obtain ⟨s', hstep, hrest⟩ := Option.bind_eq_some_iff.mp hrun
    obtain ⟨a', ha', hR'⟩ := hfollow s a e s' hR hstep
    obtain ⟨b, hb, hRb⟩ := ih hR' hrest
    refine ⟨b, ?_, hRb⟩
    rw [List.map_cons, runFrom, ha']
    exact hb

/-- What every guarded step keeps holds at the end of a guarded run. -/
theorem Along.invariant {Inv : σ → Prop} {guard : σ → ε → Prop}
    (hkeep : ∀ s e s', Inv s → guard s e → step s e = some s' → Inv s') {s t : σ} (hs : Inv s)
    {events : List ε} (hguard : Along step guard s events) (hrun : runFrom step s events = some t) :
    Inv t := by
  induction events generalizing s with
  | nil => exact Option.some.inj hrun ▸ hs
  | cons e events ih =>
    obtain ⟨s', hstep, hrest⟩ := Option.bind_eq_some_iff.mp hrun
    exact ih (hkeep s e s' hs hguard.1 hstep) (hguard.2 s' hstep) hrest

/-- A guard held along a run when each step outside it leaves a trace that lasts, and the run ends
without one. -/
theorem Along.of_lasting (Inv Trace : σ → Prop) {guard : σ → ε → Prop}
    (hkeep : ∀ s e s', Inv s → step s e = some s' → Inv s')
    (hspoil : ∀ s e s', Inv s → ¬ guard s e → step s e = some s' → Trace s')
    (hlast : ∀ s e s', Trace s → step s e = some s' → Trace s') {s t : σ} (hs : Inv s)
    {events : List ε} (hrun : runFrom step s events = some t) (ht : ¬ Trace t) :
    Along step guard s events := by
  induction events generalizing s with
  | nil => exact trivial
  | cons e events ih =>
    obtain ⟨s', hstep, hrest⟩ := Option.bind_eq_some_iff.mp hrun
    refine ⟨?_, ?_⟩
    · by_contra hguard
      exact ht (runFrom_invariant hlast (hspoil s e s' hs hguard hstep) hrest)
    · intro s'' hstep'
      obtain rfl := Option.some.inj (hstep.symm.trans hstep')
      exact ih (hkeep s e s' hs hstep) hrest

/-- What guarded steps lead to is the end of a guarded run. -/
theorem exists_run_of_reflTransGen {guard : σ → ε → Prop} {s t : σ}
    (h : Relation.ReflTransGen (fun s t => ∃ e, guard s e ∧ step s e = some t) s t) :
    ∃ events, Along step guard s events ∧ runFrom step s events = some t := by
  induction h using Relation.ReflTransGen.head_induction_on with
  | refl => exact ⟨[], trivial, rfl⟩
  | head hstep _ ih =>
    obtain ⟨e, hguard, he⟩ := hstep
    obtain ⟨events, halong, hrun⟩ := ih
    refine ⟨e :: events, Along.cons hguard he halong, ?_⟩
    rw [runFrom, he]
    exact hrun

end Runs

end Upipe.Common
