import Mathlib.Data.Finset.Insert
import Upipe.Common.Runs

/-!
# Two copies of one file

A file holds a set. One process has a copy of it, enters one element and saves; another loads the file at some
time, and from then on adds elements to its own copy and saves after each that is new. A save overwrites the
file, so what the other process has saved since the load is lost. `kept_iff` says in which runs nothing is.
-/

namespace Upipe.Common

/-- Where the process with the one element stands. -/
inductive EntryPhase where
  | ready | unsaved | done
deriving DecidableEq, Repr

/-- The file and the two copies. -/
structure Copies (α : Type*) where
  file : Finset α
  first : Finset α
  phase : EntryPhase
  second : Option (Finset α)
  unsaved : Bool

/-- The first process enters its element and saves; the second loads, adds an element, saves. -/
inductive CopyEvent (α : Type*) where
  | enter | save | load | add (a : α) | store

namespace Copies

variable {α : Type*} [DecidableEq α]

/-- One event. What is in a copy already is not saved again. -/
def step (p : α) (s : Copies α) : CopyEvent α → Option (Copies α)
  | .enter =>
      if s.phase = .ready then
        if p ∈ s.first then some { s with phase := .done }
        else some { s with first := insert p s.first, phase := .unsaved }
      else none
  | .save => if s.phase = .unsaved then some { s with file := s.first, phase := .done } else none
  | .load => if s.second = none then some { s with second := some s.file } else none
  | .add a =>
      s.second.bind fun copy =>
        if s.unsaved then none
        else if a ∈ copy then some s
        else some { s with second := some (insert a copy), unsaved := true }
  | .store => s.second.bind fun copy => if s.unsaved then some { s with file := copy, unsaved := false } else none

/-- The first process has just read the file, or written it. -/
def spawned (base : Finset α) : Copies α :=
  { file := base, first := base, phase := .ready, second := none, unsaved := false }

/-- Both processes are done. -/
structure Idle (s : Copies α) : Prop where
  phase : s.phase = .done
  unsaved : s.unsaved = false

/-- The second process loads the file after the first has saved it. -/
def LoadsAfterSave (events : List (CopyEvent α)) : Prop :=
  ∃ before after, events = before ++ .load :: after ∧ .save ∈ before

variable {p : α} {base : Finset α} {s s' t : Copies α} {events : List (CopyEvent α)}

/-! ## One step -/

theorem enter_cases (h : step p s .enter = some s') : s.phase = .ready ∧
    (p ∈ s.first ∧ s' = { s with phase := .done } ∨
      p ∉ s.first ∧ s' = { s with first := insert p s.first, phase := .unsaved }) := by
  rw [step] at h
  split at h
  · rename_i hphase
    refine ⟨hphase, ?_⟩
    split at h
    · rename_i hmem
      exact Or.inl ⟨hmem, (Option.some.inj h).symm⟩
    · rename_i hmem
      exact Or.inr ⟨hmem, (Option.some.inj h).symm⟩
  · cases h

theorem save_cases (h : step p s .save = some s') :
    s.phase = .unsaved ∧ s' = { s with file := s.first, phase := .done } := by
  rw [step] at h
  split at h
  · rename_i hphase
    exact ⟨hphase, (Option.some.inj h).symm⟩
  · cases h

theorem load_cases (h : step p s .load = some s') : s.second = none ∧ s' = { s with second := some s.file } := by
  rw [step] at h
  split at h
  · rename_i hsecond
    exact ⟨hsecond, (Option.some.inj h).symm⟩
  · cases h

theorem add_cases {a : α} (h : step p s (.add a) = some s') : ∃ copy, s.second = some copy ∧ s.unsaved = false ∧
    (a ∈ copy ∧ s' = s ∨ a ∉ copy ∧ s' = { s with second := some (insert a copy), unsaved := true }) := by
  rw [step, Option.bind_eq_some_iff] at h
  obtain ⟨copy, hsecond, h⟩ := h
  split at h
  · cases h
  · rename_i hunsaved
    refine ⟨copy, hsecond, Bool.eq_false_of_not_eq_true hunsaved, ?_⟩
    split at h
    · rename_i hmem
      exact Or.inl ⟨hmem, (Option.some.inj h).symm⟩
    · rename_i hmem
      exact Or.inr ⟨hmem, (Option.some.inj h).symm⟩

theorem store_cases (h : step p s .store = some s') : ∃ copy, s.second = some copy ∧ s.unsaved = true ∧
    s' = { s with file := copy, unsaved := false } := by
  rw [step, Option.bind_eq_some_iff] at h
  obtain ⟨copy, hsecond, h⟩ := h
  split at h
  · rename_i hunsaved
    exact ⟨copy, hsecond, hunsaved, (Option.some.inj h).symm⟩
  · cases h

/-! ## What is added stays in the copy -/

/-- The second copy holds the element. -/
def Holds (a : α) (s : Copies α) : Prop := ∃ copy, s.second = some copy ∧ a ∈ copy

theorem Holds.step {a : α} (h : s.Holds a) {e : CopyEvent α} (hstep : step p s e = some s') : s'.Holds a := by
  obtain ⟨copy, hcopy, ha⟩ := h
  cases e with
  | enter =>
    obtain ⟨-, ⟨-, rfl⟩ | ⟨-, rfl⟩⟩ := enter_cases hstep
    · exact ⟨copy, hcopy, ha⟩
    · exact ⟨copy, hcopy, ha⟩
  | save =>
    obtain ⟨-, rfl⟩ := save_cases hstep
    exact ⟨copy, hcopy, ha⟩
  | load =>
    obtain ⟨hnone, -⟩ := load_cases hstep
    rw [hnone] at hcopy
    cases hcopy
  | add b =>
    obtain ⟨copy', hcopy', -, ⟨-, rfl⟩ | ⟨-, rfl⟩⟩ := add_cases hstep
    · exact ⟨copy, hcopy, ha⟩
    · obtain rfl := Option.some.inj (hcopy.symm.trans hcopy')
      exact ⟨insert b copy, rfl, Finset.mem_insert_of_mem ha⟩
  | store =>
    obtain ⟨copy', hcopy', -, rfl⟩ := store_cases hstep
    exact ⟨copy, hcopy, ha⟩

/-- The copy holds at the end what was added on the way. -/
theorem holds_of_added {a : α} (hrun : runFrom (step p) s events = some t) (ha : .add a ∈ events) : t.Holds a := by
  obtain ⟨before, after, rfl⟩ := List.append_of_mem ha
  obtain ⟨s₁, s₂, -, hstep, hrest⟩ := runFrom_split hrun
  have hadd : s₂.Holds a := by
    obtain ⟨copy, hcopy, -, ⟨hmem, rfl⟩ | ⟨-, rfl⟩⟩ := add_cases hstep
    · exact ⟨copy, hcopy, hmem⟩
    · exact ⟨insert a copy, rfl, Finset.mem_insert_self a copy⟩
  exact runFrom_invariant (fun _ _ _ hs hstep => hs.step hstep) hadd hrest

/-! ## Runs that lose nothing -/

/-- The second process knows the element of the first, or will when it loads. -/
structure Shared (p : α) (s : Copies α) : Prop where
  first : p ∈ s.first
  phase : s.phase ≠ .unsaved
  before : s.second = none → p ∈ s.file
  after : ∀ copy, s.second = some copy → p ∈ copy ∧ (s.unsaved = false → s.file = copy)

theorem Shared.step (h : s.Shared p) {e : CopyEvent α} (hstep : step p s e = some s') : s'.Shared p := by
  cases e with
  | enter =>
    obtain ⟨-, ⟨-, rfl⟩ | ⟨hnot, -⟩⟩ := enter_cases hstep
    · exact { h with phase := EntryPhase.noConfusion }
    · exact absurd h.first hnot
  | save =>
    obtain ⟨hunsaved, -⟩ := save_cases hstep
    exact absurd hunsaved h.phase
  | load =>
    obtain ⟨hnone, rfl⟩ := load_cases hstep
    refine { h with before := fun hnone => absurd hnone (Option.some_ne_none _), after := fun copy hcopy => ?_ }
    obtain rfl := Option.some.inj hcopy
    exact ⟨h.before hnone, fun _ => rfl⟩
  | add a =>
    obtain ⟨copy, hcopy, hsaved, ⟨-, rfl⟩ | ⟨-, rfl⟩⟩ := add_cases hstep
    · exact h
    · refine { h with before := fun hnone => absurd hnone (Option.some_ne_none _), after := fun copy' hcopy' => ?_ }
      -- until the store the file need not be the copy
      obtain rfl := Option.some.inj hcopy'
      exact ⟨Finset.mem_insert_of_mem (h.after copy hcopy).1, Bool.noConfusion⟩
  | store =>
    obtain ⟨copy, hcopy, -, rfl⟩ := store_cases hstep
    refine { h with before := fun hnone => ?_, after := fun copy' hcopy' => ?_ }
    · rw [hcopy] at hnone
      cases hnone
    · obtain rfl := Option.some.inj (hcopy.symm.trans hcopy')
      exact ⟨(h.after copy hcopy).1, fun _ => rfl⟩

omit [DecidableEq α] in
/-- Such a run ends with everything in the file. -/
theorem Shared.kept (h : t.Shared p) (hidle : t.Idle) :
    p ∈ t.file ∧ ∀ a, t.Holds a → a ∈ t.file := by
  refine ⟨?_, ?_⟩
  · cases hsecond : t.second with
    | none => exact h.before hsecond
    | some copy =>
      obtain ⟨hp, hfile⟩ := h.after copy hsecond
      rw [hfile hidle.unsaved]
      exact hp
  · rintro a ⟨copy, hcopy, ha⟩
    rw [(h.after copy hcopy).2 hidle.unsaved]
    exact ha

omit [DecidableEq α] in
theorem shared_spawned (h : p ∈ base) : (spawned base).Shared p where
  first := h
  phase := EntryPhase.noConfusion
  before _ := h
  after _ hcopy := by cases hcopy

/-- The second process loads once. -/
theorem second_ne_none_step (h : s.second ≠ none) {e : CopyEvent α} (hstep : step p s e = some s') :
    s'.second ≠ none := by
  cases e with
  | enter =>
    obtain ⟨-, ⟨-, rfl⟩ | ⟨-, rfl⟩⟩ := enter_cases hstep
    · exact h
    · exact h
  | save =>
    obtain ⟨-, rfl⟩ := save_cases hstep
    exact h
  | load => exact absurd (load_cases hstep).1 h
  | add a =>
    obtain ⟨copy, -, -, ⟨-, rfl⟩ | ⟨-, rfl⟩⟩ := add_cases hstep
    · exact h
    · exact Option.some_ne_none _
  | store =>
    obtain ⟨copy, -, -, rfl⟩ := store_cases hstep
    exact h

/-- What the copy of the first process holds. -/
structure Entry (p : α) (base : Finset α) (s : Copies α) : Prop where
  ready : s.phase = .ready → s.first = base
  entered : s.phase ≠ .ready → s.first = insert p base

theorem Entry.step (h : s.Entry p base) {e : CopyEvent α} (hstep : step p s e = some s') : s'.Entry p base := by
  cases e with
  | enter =>
    obtain ⟨hphase, ⟨hmem, rfl⟩ | ⟨-, rfl⟩⟩ := enter_cases hstep
    · refine ⟨EntryPhase.noConfusion, fun _ => ?_⟩
      rw [h.ready hphase] at hmem
      show s.first = _
      rw [h.ready hphase, Finset.insert_eq_of_mem hmem]
    · refine ⟨EntryPhase.noConfusion, fun _ => ?_⟩
      show insert p s.first = _
      rw [h.ready hphase]
  | save =>
    obtain ⟨hphase, rfl⟩ := save_cases hstep
    refine ⟨EntryPhase.noConfusion, fun _ => h.entered ?_⟩
    rw [hphase]
    exact EntryPhase.noConfusion
  | load =>
    obtain ⟨-, rfl⟩ := load_cases hstep
    exact ⟨h.ready, h.entered⟩
  | add a =>
    obtain ⟨copy, -, -, ⟨-, rfl⟩ | ⟨-, rfl⟩⟩ := add_cases hstep
    · exact h
    · exact ⟨h.ready, h.entered⟩
  | store =>
    obtain ⟨copy, -, -, rfl⟩ := store_cases hstep
    exact ⟨h.ready, h.entered⟩

theorem entry_spawned : (spawned base).Entry p base where
  ready _ := rfl
  entered h := absurd rfl h

/-- A save that comes before the load makes the element known to it. -/
theorem shared_of_loadsAfterSave (hrun : runFrom (step p) (spawned base) events = some t)
    (h : LoadsAfterSave events) : t.Shared p := by
  obtain ⟨before, after, rfl, hsave⟩ := h
  obtain ⟨s₁, s₂, hbefore, hload, hafter⟩ := runFrom_split hrun
  obtain ⟨early, late, rfl⟩ := List.append_of_mem hsave
  obtain ⟨t₁, t₂, hearly, hsaved, hlate⟩ := runFrom_split hbefore
  have hentry : t₁.Entry p base := runFrom_invariant (fun _ _ _ hs hstep => hs.step hstep) entry_spawned hearly
  obtain ⟨hphase, rfl⟩ := save_cases hsaved
  have hfirst : p ∈ t₁.first := by
    rw [hentry.entered (by rw [hphase]; exact EntryPhase.noConfusion)]
    exact Finset.mem_insert_self p base
  have hloaded : ∀ (s : Copies α) e s', s.second ≠ none → step p s e = some s' → s'.second ≠ none :=
    fun _ _ _ hs hstep => second_ne_none_step hs hstep
  -- the load is still to come, so the copy of the second process cannot be older than this save
  have hnone : t₁.second = none := by
    by_contra hsome
    have hsome' : ({ t₁ with file := t₁.first, phase := .done } : Copies α).second ≠ none := hsome
    exact runFrom_invariant hloaded hsome' hlate (load_cases hload).1
  have hshared : Shared p { t₁ with file := t₁.first, phase := .done } :=
    { first := hfirst
      phase := EntryPhase.noConfusion
      before := fun _ => hfirst
      after := fun copy hcopy => absurd (hnone.symm.trans hcopy) (Option.some_ne_none copy).symm }
  have hkeep : ∀ (s : Copies α) e s', s.Shared p → step p s e = some s' → s'.Shared p :=
    fun _ _ _ hs hstep => hs.step hstep
  exact runFrom_invariant hkeep ((runFrom_invariant hkeep hshared hlate).step hload) hafter

/-- Only elements that were in the file from the start are added. -/
structure Plain (p : α) (base : Finset α) (s : Copies α) : Prop where
  unsaved : s.unsaved = false
  file : base ⊆ s.file
  second : ∀ copy, s.second = some copy → base ⊆ copy
  done : s.phase = .done → p ∈ s.file

omit [DecidableEq α] in
theorem plain_spawned : (spawned base).Plain p base where
  unsaved := rfl
  file := Finset.Subset.refl base
  second _ hcopy := by cases hcopy
  done h := by cases h

theorem Plain.step (h : s.Plain p base) (hentry : s.Entry p base) {e : CopyEvent α} (he : ∀ a, e = .add a → a ∈ base)
    (hstep : step p s e = some s') : s'.Plain p base := by
  cases e with
  | enter =>
    obtain ⟨hphase, ⟨hmem, rfl⟩ | ⟨-, rfl⟩⟩ := enter_cases hstep
    · rw [hentry.ready hphase] at hmem
      exact { h with done := fun _ => h.file hmem }
    · exact { h with done := fun hdone => by cases hdone }
  | save =>
    obtain ⟨hphase, rfl⟩ := save_cases hstep
    have hfirst : s.first = insert p base := hentry.entered (by rw [hphase]; exact EntryPhase.noConfusion)
    refine { h with file := ?_, done := fun _ => ?_ }
    · show base ⊆ s.first
      rw [hfirst]
      exact Finset.subset_insert p base
    · show p ∈ s.first
      rw [hfirst]
      exact Finset.mem_insert_self p base
  | load =>
    obtain ⟨-, rfl⟩ := load_cases hstep
    refine { h with second := fun copy hcopy => ?_ }
    obtain rfl := Option.some.inj hcopy
    exact h.file
  | add a =>
    obtain ⟨copy, hcopy, -, ⟨-, rfl⟩ | ⟨hnot, -⟩⟩ := add_cases hstep
    · exact h
    · exact absurd (h.second copy hcopy (he a rfl)) hnot
  | store =>
    obtain ⟨copy, -, hunsaved, -⟩ := store_cases hstep
    rw [h.unsaved] at hunsaved
    cases hunsaved

/-! ## Runs that lose something -/

/-- The copy of the second process does not hold the element of the first. -/
structure Apart (p : α) (base : Finset α) (s : Copies α) : Prop where
  copy : ∃ copy, s.second = some copy ∧ p ∉ copy
  file : s.file = insert p base ∨ p ∉ s.file

theorem Apart.step (h : s.Apart p base) (hentry : s.Entry p base) {e : CopyEvent α} (he : e ≠ .add p)
    (hstep : step p s e = some s') : s'.Apart p base := by
  obtain ⟨copy, hcopy, hnot⟩ := h.copy
  cases e with
  | enter =>
    obtain ⟨-, ⟨-, rfl⟩ | ⟨-, rfl⟩⟩ := enter_cases hstep
    · exact ⟨h.copy, h.file⟩
    · exact ⟨h.copy, h.file⟩
  | save =>
    obtain ⟨hphase, rfl⟩ := save_cases hstep
    exact ⟨h.copy, Or.inl (hentry.entered (by rw [hphase]; exact EntryPhase.noConfusion))⟩
  | load =>
    obtain ⟨hnone, -⟩ := load_cases hstep
    rw [hnone] at hcopy
    cases hcopy
  | add a =>
    obtain ⟨copy', hcopy', -, ⟨-, rfl⟩ | ⟨-, rfl⟩⟩ := add_cases hstep
    · exact h
    · obtain rfl := Option.some.inj (hcopy.symm.trans hcopy')
      refine ⟨⟨insert a copy, rfl, fun hp => ?_⟩, h.file⟩
      rcases Finset.mem_insert.mp hp with rfl | hp
      · exact he rfl
      · exact hnot hp
  | store =>
    obtain ⟨copy', hcopy', -, rfl⟩ := store_cases hstep
    obtain rfl := Option.some.inj (hcopy.symm.trans hcopy')
    -- here the element of the first process goes out of the file
    exact ⟨⟨copy, hcopy, hnot⟩, Or.inr hnot⟩

/-- A step in front of the load. -/
theorem step_of_not_loaded (hnone : s.second = none) {e : CopyEvent α} (hstep : step p s e = some s') :
    e = .load ∨ s'.second = none ∧ (e = .save ∨ s'.file = s.file) := by
  cases e with
  | enter =>
    obtain ⟨-, ⟨-, rfl⟩ | ⟨-, rfl⟩⟩ := enter_cases hstep
    · exact Or.inr ⟨hnone, Or.inr rfl⟩
    · exact Or.inr ⟨hnone, Or.inr rfl⟩
  | save =>
    obtain ⟨-, rfl⟩ := save_cases hstep
    exact Or.inr ⟨hnone, Or.inl rfl⟩
  | load => exact Or.inl rfl
  | add a =>
    obtain ⟨copy, hcopy, -⟩ := add_cases hstep
    rw [hnone] at hcopy
    cases hcopy
  | store =>
    obtain ⟨copy, hcopy, -⟩ := store_cases hstep
    rw [hnone] at hcopy
    cases hcopy

/-- Until the first process saves, the file that is loaded is the one from the start. -/
theorem file_of_not_saved (hrun : runFrom (step p) (spawned base) events = some t) (hsave : .save ∉ events)
    (hnone : t.second = none) : t.file = base := by
  have hkeep : ∀ (s : Copies α), ∀ e ∈ events, ∀ s', (s.second = none → s.file = base) → step p s e = some s' →
      s'.second = none → s'.file = base := by
    intro s e he s' hs hstep hnone'
    have hnone : s.second = none := by
      by_contra hsome
      exact second_ne_none_step hsome hstep hnone'
    rcases step_of_not_loaded hnone hstep with rfl | ⟨-, rfl | hfile⟩
    · obtain ⟨-, rfl⟩ := load_cases hstep
      cases hnone'
    · exact absurd he hsave
    · rw [hfile, hs hnone]
  exact runFrom_kept hkeep (fun _ => rfl) hrun hnone

/-- A load without a save in front of it parts the copies. -/
theorem apart_of_loaded (hp : p ∉ base) (hrun : runFrom (step p) (spawned base) events = some t)
    (hload : .load ∈ events) (hlate : ¬ LoadsAfterSave events) (hadd : .add p ∉ events) : t.Apart p base := by
  obtain ⟨before, after, rfl⟩ := List.append_of_mem hload
  obtain ⟨s₁, s₂, hbefore, hstep, hafter⟩ := runFrom_split hrun
  have hsave : .save ∉ before := fun hsave => hlate ⟨before, after, rfl, hsave⟩
  have hkeep : ∀ (s : Copies α) e s', s.Entry p base → step p s e = some s' → s'.Entry p base :=
    fun _ _ _ hs hstep => hs.step hstep
  have hentry := (runFrom_invariant hkeep entry_spawned hbefore).step hstep
  obtain ⟨hnone, rfl⟩ := load_cases hstep
  have hfile := file_of_not_saved hbefore hsave hnone
  have hapart : Apart p base { s₁ with second := some s₁.file } := by
    refine ⟨⟨s₁.file, rfl, ?_⟩, Or.inr ?_⟩
    · rwa [hfile]
    · show p ∉ s₁.file
      rwa [hfile]
  have hkeep' : ∀ s, ∀ e ∈ after, ∀ s', s.Entry p base ∧ s.Apart p base → step p s e = some s' →
      s'.Entry p base ∧ s'.Apart p base := by
    rintro s e he s' ⟨hentry, hapart⟩ hstep
    refine ⟨hentry.step hstep, hapart.step hentry ?_ hstep⟩
    rintro rfl
    exact hadd (List.mem_append.mpr (Or.inr (List.mem_cons_of_mem _ he)))
  exact (runFrom_kept hkeep' ⟨hentry, hapart⟩ hafter).2

/-- Nothing comes into the second copy before it is loaded. -/
theorem load_mem_of_added {a : α} (hrun : runFrom (step p) (spawned base) events = some t) (ha : .add a ∈ events) :
    .load ∈ events := by
  by_contra hload
  have hkeep : ∀ (s : Copies α), ∀ e ∈ events, ∀ s', s.second = none → step p s e = some s' → s'.second = none := by
    intro s e he s' hnone hstep
    rcases step_of_not_loaded hnone hstep with rfl | ⟨hnone', -⟩
    · exact absurd he hload
    · exact hnone'
  obtain ⟨copy, hcopy, -⟩ := holds_of_added hrun ha
  rw [runFrom_kept hkeep rfl hrun] at hcopy
  cases hcopy

/-- The file keeps what both processes have entered exactly when the element of the first was there from the start,
or is saved before the load, or the second process adds nothing that is new. -/
theorem kept_iff (hrun : runFrom (step p) (spawned base) events = some t) (hidle : t.Idle)
    (hadd : .add p ∉ events) : (p ∈ t.file ∧ ∀ a, .add a ∈ events → a ∈ t.file) ↔
      p ∈ base ∨ LoadsAfterSave events ∨ ∀ a, .add a ∈ events → a ∈ base := by
  have hshared : t.Shared p → p ∈ t.file ∧ ∀ a, .add a ∈ events → a ∈ t.file := by
    intro h
    obtain ⟨hp, hkept⟩ := h.kept hidle
    exact ⟨hp, fun a ha => hkept a (holds_of_added hrun ha)⟩
  constructor
  · rintro ⟨hp, hkept⟩
    by_contra hlost
    push Not at hlost
    obtain ⟨hbase, hlate, a, ha, hnew⟩ := hlost
    obtain ⟨-, hfile | hfile⟩ := apart_of_loaded hbase hrun (load_mem_of_added hrun ha) hlate hadd
    · -- the first process saved last: the new element `a` is lost
      have hmem := hkept a ha
      rw [hfile] at hmem
      rcases Finset.mem_insert.mp hmem with rfl | hmem
      · exact hadd ha
      · exact hnew hmem
    · exact hfile hp
  · rintro (hbase | hlate | hplain)
    · exact hshared (runFrom_invariant (fun _ _ _ hs hstep => hs.step hstep) (shared_spawned hbase) hrun)
    · exact hshared (shared_of_loadsAfterSave hrun hlate)
    · have hkeep : ∀ s, ∀ e ∈ events, ∀ s', s.Entry p base ∧ s.Plain p base → step p s e = some s' →
          s'.Entry p base ∧ s'.Plain p base := by
        rintro s e he s' ⟨hentry, hs⟩ hstep
        refine ⟨hentry.step hstep, hs.step hentry (fun a ha => hplain a ?_) hstep⟩
        rwa [← ha]
      obtain ⟨-, hend⟩ := runFrom_kept hkeep ⟨entry_spawned, plain_spawned⟩ hrun
      exact ⟨hend.done hidle.phase, fun a ha => hend.file (hplain a ha)⟩

end Copies

end Upipe.Common
