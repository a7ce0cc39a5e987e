import Upipe.Node.Manager.Autoscale

/-!
# The limits of scaling

A processor is to have at most `autoscale` instances, at most one of them LAUNCHED. `scale_up` looks before
it launches; `start` launches one instance of every processor whatever is there already, and PAUSE stops
nothing. The limits are kept exactly as long as every START finds room (`scaling_limits_iff`).
-/

namespace Upipe

open Upipe.Common

/-! ## The limits -/

namespace ProcessorController

/-- The processor is within its limits. -/
structure Limited (p : ProcessorController) : Prop where
  instances_le : (p.instances.length : ℤ) ≤ p.proc.settings.autoscale
  launched_le : p.instances.countP WorkerController.isLaunched ≤ 1

instance (p : ProcessorController) : Decidable p.Limited :=
  decidable_of_iff ((p.instances.length : ℤ) ≤ p.proc.settings.autoscale ∧
    p.instances.countP WorkerController.isLaunched ≤ 1) ⟨fun h => ⟨h.1, h.2⟩, fun h => ⟨h.1, h.2⟩⟩

/-- `launched_instances` and `available_instances` return. -/
structure Answers (p : ProcessorController) : Prop where
  launched : ∃ launched, p.launchedInstances = .ok launched
  available : ∃ available, p.availableInstances = .ok available

/-- There is room for an instance, and none is LAUNCHED. -/
def HasSlot (p : ProcessorController) : Prop :=
  (p.instances.length : ℤ) < p.proc.settings.autoscale ∧ p.NoneLaunched

instance (p : ProcessorController) : Decidable p.HasSlot :=
  inferInstanceAs (Decidable (_ ∧ ∀ i ∈ _, _))

end ProcessorController

namespace PipeController

/-- The processors among these that `start` gets to launch: it passes over those that are not executable
and ends at one without an entry point. -/
def launchable (processors : List ProcessorController) : List ProcessorController :=
  (processors.filter ProcessorController.executable).takeWhile fun p =>
    ProcessorController.isGiven p.proc.entry

/-- A START finds a slot at every processor that it launches. -/
def StartFits (c : PipeController) : Prop :=
  c.status ≠ .init → ∀ p ∈ launchable c.processors.values, p.HasSlot

instance (c : PipeController) : Decidable c.StartFits :=
  inferInstanceAs (Decidable (_ → ∀ p ∈ _, _))

end PipeController

/-- The pipes have just been loaded, and their processors allow one instance at least. -/
def ComputeNode.Loaded (node : ComputeNode) : Prop :=
  ∀ c ∈ node.pipeControllers.values, ∃ pipe : APIPipe, c = PipeController.load pipe ∧
    ∀ proc ∈ pipe.processors.values, 1 ≤ proc.settings.autoscale

namespace ScalingNode

def Limited (s : ScalingNode) : Prop := s.Every fun _ p => p.Limited

def Answers (s : ScalingNode) : Prop := s.Every fun _ p => p.Answers

instance (s : ScalingNode) : Decidable s.Limited :=
  inferInstanceAs (Decidable (s.node.Every fun _ c => c.Every fun _ p => p.Limited))

/-- The step leaves every processor within its limits and able to answer. In a tick they answer also where
`check_autoscale` asks them, which is once the pipes have been monitored. -/
structure LimitsKept (s : ScalingNode) (e : NodeEvent) : Prop where
  limited : ∀ s', nodeStep s e = some s' → s'.Limited ∧ s'.Answers
  asked : ∀ env s', e = .tick env →
    onNode (ComputeNode.babySitterLoop s.node.pipeControllers.keys) s = .ok () s' → s'.Answers

/-- The condition on a step. -/
def StartsInLimits (s : ScalingNode) : NodeEvent → Prop
  | .control pipe .start _ => ∀ c ∈ s.node.pipeControllers.get? pipe, c.StartFits
  | _ => True

instance (s : ScalingNode) (e : NodeEvent) : Decidable (s.StartsInLimits e) :=
  match e with
  | .control pipe .start _ =>
      inferInstanceAs (Decidable (∀ c ∈ s.node.pipeControllers.get? pipe, c.StartFits))
  | .control _ .pause _ | .control _ .restart _ | .control _ .terminate _ | .register .. | .output ..
  | .exit .. | .runTask .. | .tick .. => isTrue trivial

end ScalingNode

/-! ## One processor -/

namespace ProcessorController

variable {p : ProcessorController} {pid : ℕ} {colour : String}

theorem Limited.answers (h : p.Limited) : p.Answers where
  launched := by
    have hle : ¬ (p.instances.filter WorkerController.isLaunched).length > 1 := by
      rw [← List.countP_eq_length_filter]
      exact Nat.not_lt.mpr h.launched_le
    refine ⟨p.instances.filter WorkerController.isLaunched, ?_⟩
    unfold launchedInstances
    dsimp only
    rw [if_neg hle]
    rfl
  available := by
    unfold availableInstances
    split
    · exact ⟨0, rfl⟩
    split
    · exact ⟨0, rfl⟩
    have hle : ¬ p.proc.settings.autoscale - p.instances.length < 0 := by
      have := h.instances_le
      omega
    refine ⟨p.proc.settings.autoscale - p.instances.length, ?_⟩
    dsimp only
    rw [if_neg hle]
    rfl

/-- The limits are steady: of the instances, a change adds none and makes none LAUNCHED. -/
theorem steady_limited : Steady Limited where
  follow p n i i' hp hn hfollow := by
    obtain ⟨hlt, rfl⟩ := List.getElem?_eq_some_iff.mp hn
    refine ⟨?_, ?_⟩
    · show ((p.instances.set n i').length : ℤ) ≤ _
      rw [List.length_set]
      exact hp.instances_le
    · show (p.instances.set n i').countP WorkerController.isLaunched ≤ 1
      have hle := hp.launched_le
      rw [List.countP_set hlt]
      by_cases hi' : i'.isLaunched
      · have hpos := List.countP_pos_iff.mpr
          ⟨p.instances[n], List.getElem_mem hlt, hfollow.launched hi'⟩
        rw [if_pos hi', if_pos (hfollow.launched hi')]
        omega
      · rw [if_neg hi']
        omega
  remove p n hp := by
    have hsub := List.eraseIdx_sublist p.instances n
    have hlength := hsub.length_le
    have hinstances := hp.instances_le
    refine ⟨?_, (hsub.countP_le).trans hp.launched_le⟩
    show ((p.instances.eraseIdx n).length : ℤ) ≤ p.proc.settings.autoscale
    omega
  status _ _ hp := ⟨hp.instances_le, hp.launched_le⟩

theorem noneLaunched_iff : p.NoneLaunched ↔ p.instances.countP WorkerController.isLaunched = 0 := by
  rw [List.countP_eq_zero]
  simp only [NoneLaunched, Bool.not_eq_true]

/-- One more instance is within the limits exactly when there is a slot for it. -/
theorem limited_withLaunched_iff : (p.withLaunched pid colour).Limited ↔ p.HasSlot := by
  have hlength : (p.withLaunched pid colour).instances.length = p.instances.length + 1 := by
    rw [withLaunched, List.length_append, List.length_singleton]
  have hcount : (p.withLaunched pid colour).instances.countP WorkerController.isLaunched
      = p.instances.countP WorkerController.isLaunched + 1 := by
    rw [withLaunched, List.countP_append, List.countP_singleton]
    rfl
  have hproc : (p.withLaunched pid colour).proc = p.proc := rfl
  rw [HasSlot, noneLaunched_iff]
  constructor
  · rintro ⟨hinstances, hlaunched⟩
    rw [hlength, hproc] at hinstances
    rw [hcount] at hlaunched
    omega
  · rintro ⟨hinstances, hlaunched⟩
    refine ⟨?_, ?_⟩
    · rw [hlength, hproc]
      omega
    · rw [hcount, hlaunched]

end ProcessorController

/-! ## START -/

namespace PipeController

variable {c : PipeController} (launched : String → ℕ × String)

theorem launchable_cons_skip {p : ProcessorController} (h : ¬ p.executable)
    (processors : List ProcessorController) :
    launchable (p :: processors) = launchable processors := by
  rw [launchable, List.filter_cons_of_neg h, launchable]

theorem launchable_cons_stop {p : ProcessorController} (hexec : p.executable)
    (h : ¬ ProcessorController.isGiven p.proc.entry) (processors : List ProcessorController) :
    launchable (p :: processors) = [] := by
  rw [launchable, List.filter_cons_of_pos hexec]
  exact List.takeWhile_cons_of_neg h

theorem launchable_cons {p : ProcessorController} (hexec : p.executable)
    (h : ProcessorController.isGiven p.proc.entry) (processors : List ProcessorController) :
    launchable (p :: processors) = p :: launchable processors := by
  rw [launchable, List.filter_cons_of_pos hexec]
  exact List.takeWhile_cons_of_pos h

/-- The loop of `start` leaves the processors that it does not come to. -/
theorem get?_launchAll {key : String} {keys : List String} (hkey : key ∉ keys) (c : PipeController) :
    (stateOf (launchAll launched keys c)).processors.get? key = c.processors.get? key := by
  have hkeep : ∀ keys, key ∉ keys →
      Keeps (fun c' => c'.processors.get? key = c.processors.get? key) (launchAll launched keys) := by
    intro keys hkeys
    induction keys with
    | nil => exact keeps_pure _
    | cons key' keys ih =>
      obtain ⟨hne, hkeys⟩ := not_or.mp (mt List.mem_cons.mpr hkeys)
      refine Keeps.bind (fun c' hc' => ?_) fun _ => ih hkeys
      cases hp : c'.processors.get? key' with
      | none =>
        rw [stateOf_onProcessor_of_none hp]
        exact hc'
      | some p =>
        rw [stateOf_onProcessor hp]
        exact (c'.processors.get?_set_of_ne _ hne).trans hc'
  exact hkeep keys hkey c rfl

/-- The loop of `start` comes to a processor that launches. -/
theorem launchAll_cons_given {key : String} {p : ProcessorController} (keys : List String)
    (hp : c.processors.get? key = some p) (hexec : p.executable)
    (hgiven : ProcessorController.isGiven p.proc.entry) : launchAll launched (key :: keys) c
      = launchAll launched keys (c.withProcessor key (p.withLaunched (launched key).1 (launched key).2)) := by
  rw [launchAll]
  refine bind_ok (a := ()) (onProcessor_ok hp ?_)
  rw [get_bind_apply, if_pos hexec, ProcessorController.launchInstance_ok hgiven]

/-- The loop of `start` ends at a processor without an entry point. -/
theorem launchAll_cons_stop {key : String} {p : ProcessorController} (keys : List String)
    (hp : c.processors.get? key = some p) (hexec : p.executable)
    (hgiven : ¬ ProcessorController.isGiven p.proc.entry) : launchAll launched (key :: keys) c
      = .error ⟨.environmentError, "Can not launch processor with no entry point"⟩ c := by
  rw [launchAll]
  refine bind_error ((onProcessor_error hp ?_).trans (congrArg _ (withProcessor_of_get? hp)))
  rw [get_bind_apply, if_pos hexec, ProcessorController.launchInstance_error hgiven]

/-- The loop of `start` skips a processor that is not executable. -/
theorem launchAll_cons_skip {key : String} {p : ProcessorController} (keys : List String)
    (hp : c.processors.get? key = some p) (hexec : ¬ p.executable) :
    launchAll launched (key :: keys) c = launchAll launched keys c := by
  rw [launchAll]
  refine bind_ok (a := ()) ((onProcessor_ok hp ?_).trans (congrArg _ (withProcessor_of_get? hp)))
  rw [get_bind_apply, if_neg hexec]
  rfl

/-- The loop of `start` keeps the limits exactly when there is a slot at every processor that it
launches. -/
theorem limited_launchAll_iff {items : List (String × ProcessorController)}
    (hnodup : (items.map Prod.fst).Nodup)
    (hget : ∀ item ∈ items, c.processors.get? item.1 = some item.2) (h : c.Every fun _ p => p.Limited) :
    (stateOf (launchAll launched (items.map Prod.fst) c)).Every (fun _ p => p.Limited)
      ↔ ∀ p ∈ launchable (items.map Prod.snd), p.HasSlot := by
  induction items generalizing c with
  | nil => exact iff_of_true h (fun _ hp => nomatch hp)
  | cons item items ih =>
    obtain ⟨key, p⟩ := item
    rw [List.map_cons, List.nodup_cons] at hnodup
    have hp : c.processors.get? key = some p := hget (key, p) List.mem_cons_self
    have hrest : ∀ item ∈ items, c.processors.get? item.1 = some item.2 := fun item hitem =>
      hget item (List.mem_cons_of_mem _ hitem)
    rw [List.map_cons, List.map_cons]
    by_cases hexec : p.executable
    · by_cases hgiven : ProcessorController.isGiven p.proc.entry
      · rw [launchAll_cons_given launched _ hp hexec hgiven, launchable_cons hexec hgiven, List.forall_mem_cons]
        by_cases hslot : p.HasSlot
        · rw [and_iff_right hslot]
          apply ih hnodup.2
          · rintro ⟨l, w⟩ hitem
            have hne : l ≠ key := by
              rintro rfl
              have hmem := List.mem_map_of_mem (f := Prod.fst) hitem
              exact hnodup.1 hmem
            exact (c.processors.get?_set_of_ne _ hne).trans (hrest (l, w) hitem)
          · exact h.withProcessor (ProcessorController.limited_withLaunched_iff.mpr hslot)
        · -- the rest of the loop does not come to this processor again
          refine iff_of_false ?_ fun hall => hslot hall.1
          intro hevery
          have hkept := get?_launchAll launched hnodup.1
            (c.withProcessor key (p.withLaunched (launched key).1 (launched key).2))
          have hlimited := hevery.get (hkept.trans (c.get?_withProcessor key _))
          exact hslot (ProcessorController.limited_withLaunched_iff.mp hlimited)
      · rw [launchAll_cons_stop launched _ hp hexec hgiven, launchable_cons_stop hexec hgiven]
        exact iff_of_true h (fun _ hp => nomatch hp)
    · rw [launchAll_cons_skip launched _ hp hexec, launchable_cons_skip hexec]
      exact ih hnodup.2 hrest h

/-- A START keeps the limits exactly when it fits. -/
theorem limited_start_iff (h : c.Every fun _ p => p.Limited) :
    (stateOf (start launched c)).Every (fun _ p => p.Limited) ↔ c.StartFits := by
  -- the status change that is scheduled at the end leaves the processors
  have hall := limited_launchAll_iff launched c.processors.nodup
    (fun _ hitem => c.processors.get?_eq_some_iff.mpr hitem) h
  rw [StartFits, start, get_bind_apply]
  split
  · rename_i hinit
    exact iff_of_true h fun hne => absurd hinit hne
  · rename_i hinit
    refine Iff.trans ?_ (hall.trans ⟨fun hslots _ => hslots, fun hslots => hslots hinit⟩)
    show _ ↔ (stateOf (launchAll launched c.processors.keys c)).Every _
    cases hcall : launchAll launched c.processors.keys c with
    | ok a c' =>
      rw [bind_ok hcall]
      exact Iff.rfl
    | error e c' => rw [bind_error hcall]

end PipeController

/-! ## Runs -/

namespace ScalingNode

variable {s s' : ScalingNode} {e : NodeEvent}

theorem Limited.answers (h : s.Limited) : s.Answers :=
  fun item hitem item' hitem' => (h item hitem item' hitem').answers

theorem limited_of_loaded (h : s.node.Loaded) : s.Limited := by
  intro item hitem
  obtain ⟨pipe, hpipe, hscale⟩ := h item.2 (List.mem_map_of_mem (f := Prod.snd) hitem)
  rw [hpipe]
  intro item' hitem'
  obtain ⟨⟨key, proc⟩, hproc, rfl⟩ := List.mem_map.mp hitem'
  have hone := hscale proc (List.mem_map_of_mem (f := Prod.snd) hproc)
  exact ⟨Int.le_trans Int.one_nonneg hone, Nat.zero_le 1⟩

/-- A START to a pipe that is within its limits keeps them exactly when it fits. -/
theorem limited_processMessage_iff (h : s.Limited) (pipe : String) (launched : String → ℕ × String) :
    (s.node.processMessage pipe .start launched).Every (fun _ c => c.Every fun _ p => p.Limited)
      ↔ ∀ c ∈ s.node.pipeControllers.get? pipe, c.StartFits := by
  rw [ComputeNode.processMessage]
  cases hget : s.node.pipeControllers.get? pipe with
  | none =>
    rw [ComputeNode.stateOf_onPipe_of_none hget]
    exact iff_of_true h fun _ hc => nomatch hc
  | some c =>
    have hnode : s.node.Every fun _ c => c.Every fun _ p => p.Limited := h
    have hc := hnode.get hget
    have hstart := PipeController.limited_start_iff launched hc
    rw [ComputeNode.stateOf_onPipe hget]
    constructor
    · intro hafter c' hc'
      obtain rfl := Option.some.inj hc'
      exact hstart.mp (hafter.get (s.node.pipeControllers.get?_set_self pipe _))
    · intro hfits
      exact hnode.withPipe (hstart.mpr (hfits c rfl))

/-- Of all steps only a START can break the limits. -/
theorem Limited.step (h : s.Limited) (hstart : s.StartsInLimits e) (hstep : nodeStep s e = some s') :
    s'.Limited := by
  refine Every.step (fun _ => ProcessorController.steady_limited.lasting) ?_ h ?_ hstep
  · intro _ p _ _ _ hnone hroom
    exact ProcessorController.limited_withLaunched_iff.mpr ⟨hroom.2.2, hnone⟩
  · rintro pipe launched rfl
    exact (limited_processMessage_iff h pipe launched).mpr hstart

theorem limitsKept_iff (h : s.Limited) : s.LimitsKept e ↔ s.StartsInLimits e := by
  constructor
  · intro hkept
    unfold StartsInLimits
    split
    · rename_i pipe launched
      exact (limited_processMessage_iff h pipe launched).mp (hkept.limited _ rfl).1
    · trivial
  · intro hstart
    constructor
    · intro s' hstep
      have hlimited := h.step hstart hstep
      exact ⟨hlimited, hlimited.answers⟩
    · intro env s' _ hcall
      have hkeeps := keepsEvery_babySitterLoop (fun _ => ProcessorController.steady_limited.lasting)
        s.node.pipeControllers.keys s h
      rw [hcall] at hkeeps
      exact Limited.answers hkeeps

/-- The limits are kept along a run exactly when every START of it fits. -/
theorem scaling_limits_iff (hloaded : s.node.Loaded) (events : List NodeEvent) :
    Along nodeStep LimitsKept s events ↔ Along nodeStep StartsInLimits s events :=
  Along.iff_of_kept Limited (fun _ _ _ s' _ hkept hstep => (hkept.limited s' hstep).1)
    (fun _ _ _ h => limitsKept_iff h) (limited_of_loaded hloaded)

/-! ## A pipe started once and twice -/

/-- A node with one pipe, just loaded. -/
def oneLoaded : ScalingNode where
  node := ⟨Dict.empty.set "main" (PipeController.load APIPipe.oneChild)⟩
  lastScaleTime := 0
  sitting := true

theorem oneLoaded_loaded : oneLoaded.node.Loaded := by
  intro c hc
  obtain rfl := List.mem_singleton.mp hc
  exact ⟨APIPipe.oneChild, rfl, by decide⟩

def startMain : NodeEvent := .control "main" .start fun _ => (7, "")

def quietTick : NodeEvent :=
  .tick { now := 0, usage := .ok (0, 0), pending := fun _ _ => 0, pid := 8, colour := "" }

theorem scaling_limits_one_start :
    Along nodeStep LimitsKept oneLoaded [startMain, .runTask "main", quietTick] :=
  (scaling_limits_iff oneLoaded_loaded _).mpr (by decide +kernel)

/-- A second START launches a second instance of a processor that is limited to one, and the next tick ends
the baby sitter. -/
theorem second_start_exceeds_limits :
    oneLoaded.node.Loaded ∧
      ¬ Along nodeStep LimitsKept oneLoaded [startMain, startMain, .runTask "main", quietTick] ∧
      (runFrom nodeStep oneLoaded [startMain, startMain, .runTask "main", quietTick]).any
        (fun s => !s.sitting) := by
  refine ⟨oneLoaded_loaded, ?_, by decide +kernel⟩
  intro h
  have hrun : (runFrom nodeStep oneLoaded [startMain, startMain]).any
      (fun s => decide (¬ s.Limited)) = true := by decide +kernel
  obtain ⟨s, hs, hexceeded⟩ := (Option.any_eq_true _ _).mp hrun
  obtain ⟨s₁, hfirst, hsecond⟩ := Option.bind_eq_some_iff.mp hs
  obtain ⟨s₂, hsecond, hend⟩ := Option.bind_eq_some_iff.mp hsecond
  obtain rfl := Option.some.inj hend
  exact of_decide_eq_true hexceeded ((h.2 s₁ hfirst).1.limited s₂ hsecond).1

end ScalingNode

end Upipe
