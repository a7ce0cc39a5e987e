import Upipe.Node.Manager.Autoscale

/-!
# Completed processors

`notify_termination` looks whether an instance is left before it sets a processor COMPLETED; `on_complete`, which
`handle_instance_exit` calls for every instance that has ended, does not look, and `launch_instance` leaves the status
of a processor that is COMPLETED already. `completed_done_iff` says which runs have only DONE instances in the
processors that are COMPLETED.
-/

namespace Upipe

open Upipe.Common

/-! ## Definitions -/

/-- The instance belongs to the processor, and it is not RUNNING. -/
def WorkerController.Listed (key : String) (i : WorkerController) : Prop := i.procId = key ∧ i.NotRunning

namespace ProcessorController

/-- If the processor is COMPLETED, all its instances are DONE. -/
def CompletedDone (p : ProcessorController) : Prop := p.status = .completed → ∀ i ∈ p.instances, i.isDone

instance (p : ProcessorController) : Decidable p.CompletedDone := inferInstanceAs (Decidable (_ → ∀ i ∈ _, _))

/-- All instances are DONE, except for the one that a notice is for. -/
def DoneBut (p : ProcessorController) (found : Option ℕ) : Prop :=
  ∀ n : Fin p.instances.length, p.instances[n].isDone ∨ found = some n.val

instance (p : ProcessorController) (found : Option ℕ) : Decidable (p.DoneBut found) :=
  inferInstanceAs (Decidable (∀ _ : Fin _, _))

/-- The processor and its instances are listed under its id, and no instance is RUNNING. -/
structure InOrder (key : String) (p : ProcessorController) : Prop where
  id : p.proc.id = key
  instances : ∀ i ∈ p.instances, i.Listed key

end ProcessorController

namespace PipeController

/-- What happens to the processors of a pipe. `exit` is the end of a process, `handleExit` the turn of `monitor_pipe`
at an instance that is DONE. -/
inductive CompletionEvent where
  | launch (key : String) (pid : ℕ) (colour : String)
  | register (ps : ℕ → Except PyError (List ℕ)) (pid : ℕ)
  | connection (key : String) (n : ℕ) (isOpen : Bool)
  | request (key : String)
  | notify (ps : ℕ → Except PyError (List ℕ)) (pid : ℕ) (key : String)
  | exit (key : String) (n : ℕ) (code : ℤ) (lines : List Bytes)
  | handleExit (key : String) (n : ℕ)

/-- The instance at a place of the pipe, if it is DONE. -/
def doneInstance (c : PipeController) (key : String) (n : ℕ) : Option WorkerController :=
  ((c.processors.get? key).bind fun p => p.instances[n]?).filter WorkerController.isDone

/-- One event. A call that raises leaves the changes it made before. -/
def completionStep (c : PipeController) : CompletionEvent → Option PipeController
  | .launch key pid colour => some (stateOf (onProcessor key (ProcessorController.launchInstance pid colour) c))
  | .register ps pid => some (stateOf (registerLaunchedInstance ps pid c))
  | .connection key n isOpen =>
      some (stateOf (onProcessor key (ProcessorController.onInstance n
        (modify fun i => { i with connected := isOpen })) c))
  | .request key => some (stateOf (onProcessor key ProcessorController.requestTermination c))
  | .notify ps pid key => some (stateOf (onProcessor key (ProcessorController.notifyTermination ps pid) c))
  | .exit key n code lines =>
      some (stateOf (onProcessor key (ProcessorController.onInstance n (exited code lines)) c))
  | .handleExit key n => (c.doneInstance key n).map fun i => stateOf (handleInstanceExit key n i c)

/-- After the step every processor that is COMPLETED has only DONE instances. -/
def CompletionSound (c : PipeController) (e : CompletionEvent) : Prop :=
  ∀ c', completionStep c e = some c' → c'.Every fun _ p => p.CompletedDone

/-- The condition on a step. A launch comes to a processor that is not COMPLETED; a request to one that is finds all
its instances connected; a notice to one that is PENDING_TERMINATION, and the exit of an instance, come when all other
instances are DONE. -/
def CompletesLast (c : PipeController) : CompletionEvent → Prop
  | .launch key _ _ =>
      ∀ p ∈ c.processors.get? key, ProcessorController.isGiven p.proc.entry → p.status ≠ .completed
  | .request key => ∀ p ∈ c.processors.get? key, p.status = .completed → ∀ i ∈ p.instances, i.connected
  | .notify ps pid key => ∀ p ∈ c.processors.get? key, p.pendingTermination →
      ∀ found ∈ (ProcessorController.findByPid ps pid p.instances).toOption, p.DoneBut found
  | .handleExit key n => ∀ p ∈ c.processors.get? key, ∀ i ∈ p.instances[n]?, i.isDone → ∀ j ∈ p.instances, j.isDone
  | .register .. | .connection .. | .exit .. => True

instance (c : PipeController) (e : CompletionEvent) : Decidable (c.CompletesLast e) :=
  match e with
  | .launch key _ _ => inferInstanceAs (Decidable (∀ p ∈ c.processors.get? key, _ → _))
  | .request key => inferInstanceAs (Decidable (∀ p ∈ c.processors.get? key, _ → ∀ i ∈ p.instances, _))
  | .notify ps pid key => inferInstanceAs (Decidable (∀ p ∈ c.processors.get? key, _ →
      ∀ found ∈ (ProcessorController.findByPid ps pid p.instances).toOption, p.DoneBut found))
  | .handleExit key n => inferInstanceAs (Decidable (∀ p ∈ c.processors.get? key, ∀ i ∈ p.instances[n]?, _ →
      ∀ j ∈ p.instances, _))
  | .register .. | .connection .. | .exit .. => isTrue trivial

end PipeController

/-! ## One processor -/

namespace WorkerController

variable {key : String}

theorem keeps_listed {m : PyM WorkerController Unit} (hrun : Keeps NotRunning m)
    (hfollow : ∀ i, Keeps (Follows i) m) : Keeps (Listed key) m := by
  intro i hi
  refine ⟨?_, hrun i hi.2⟩
  rw [procId, (hfollow i i i.follows_refl).proc_eq]
  exact hi.1

theorem listed_exited (code : ℤ) (lines : List Bytes) : Keeps (Listed key) (PipeController.exited code lines) :=
  keeps_listed (keeps_exited code lines) fun _ => follows_exited code lines

/-- An instance whose process ends stays DONE. -/
theorem keeps_exited_done (code : ℤ) (lines : List Bytes) :
    Keeps (fun i => i.isDone) (PipeController.exited code lines) := by
  refine keeps_modify fun i hi => ?_
  split
  · rw [handleExit]
    split
    · rfl
    · rfl
  · exact hi

/-- What `register_launched_instance` does to the instance that it finds. -/
def registerLaunched (ps : ℕ → Except PyError (List ℕ)) (pid : ℕ) : PyM WorkerController Unit := do
  let i ← get
  if i.isLaunched then register ps pid
  else throw ⟨.brokenPipeError, s!"Instance already registered: '{i.name}' ({i.pid})"⟩

theorem listed_registerLaunched (ps : ℕ → Except PyError (List ℕ)) (pid : ℕ) :
    Keeps (Listed key) (registerLaunched ps pid) := by
  refine keeps_get_bind fun i hi => ?_
  split
  · exact keeps_listed (keeps_register ps pid) (fun _ => follows_register ps pid) i hi
  · exact hi

/-- A DONE instance is not registered. -/
theorem keeps_registerLaunched_done (ps : ℕ → Except PyError (List ℕ)) (pid : ℕ) :
    Keeps (fun i => i.isDone) (registerLaunched ps pid) := by
  refine keeps_get_bind fun i hi => ?_
  have hnot : ¬ i.isLaunched := by
    intro hlaunched
    have hstate : i.state = .done := of_decide_eq_true hi
    rw [isLaunched, hstate] at hlaunched
    cases hlaunched
  rw [if_neg hnot]
  exact hi

end WorkerController

namespace ProcessorController

variable {p : ProcessorController} {key : String} {ps : ℕ → Except PyError (List ℕ)} {pid : ℕ}

/-! ### The order is kept -/

theorem inOrder_onInstance {n : ℕ} {m : PyM WorkerController Unit}
    (hm : Keeps (WorkerController.Listed key) m) : Keeps (InOrder key) (onInstance n m) := by
  intro p hp
  refine ⟨?_, keeps_onInstance hm p hp.instances⟩
  rw [onInstance]
  cases hn : p.instances[n]? with
  | none => exact hp.id
  | some i =>
    cases hcall : m i with
    | ok _ i' | error _ i' =>
      simp only [hcall]
      exact hp.id

theorem inOrder_launchInstance (pid : ℕ) (colour : String) : Keeps (InOrder key) (launchInstance pid colour) := by
  intro p hp
  by_cases hgiven : isGiven p.proc.entry
  · rw [launchInstance_ok hgiven]
    refine ⟨hp.id, fun i hi => ?_⟩
    rcases List.mem_append.mp hi with hi | hi
    · exact hp.instances i hi
    · rw [List.mem_singleton.mp hi]
      exact ⟨hp.id, InstanceState.noConfusion⟩
  · rw [launchInstance_error hgiven]
    exact hp

theorem forall_requestAll {R : WorkerController → Prop} (hm : Keeps R WorkerController.requestTermination)
    {instances : List WorkerController} (h : ∀ i ∈ instances, R i) : ∀ i ∈ stateOf (requestAll instances), R i := by
  induction instances with
  | nil => exact h
  | cons i instances ih =>
    rw [List.forall_mem_cons] at h
    have hi := hm i h.1
    rw [requestAll]
    cases hcall : WorkerController.requestTermination i with
    | error e i' =>
      rw [hcall] at hi
      exact List.forall_mem_cons.mpr ⟨hi, h.2⟩
    | ok a i' =>
      rw [hcall] at hi
      have hrest := ih h.2
      cases hmore : requestAll instances with
      | ok a rest | error e rest =>
        rw [hmore] at hrest
        exact List.forall_mem_cons.mpr ⟨hi, hrest⟩

theorem inOrder_requestTermination : Keeps (InOrder key) requestTermination := by
  have hrequest : Keeps (WorkerController.Listed key) WorkerController.requestTermination := by
    refine Keeps.bind (keeps_modify fun _ hi => ⟨hi.1, InstanceState.noConfusion⟩) fun _ => ?_
    refine keeps_get_bind fun i hi => ?_
    split
    · exact hi
    · exact hi
  intro p hp
  have hall := forall_requestAll hrequest hp.instances
  rw [requestTermination]
  cases hcall : requestAll p.instances with
  | ok a instances | error e instances =>
    rw [hcall] at hall
    exact ⟨hp.id, hall⟩

/-- What a notice leaves, when its lookup returns. -/
theorem stateOf_notifyTermination {found : Option ℕ} (h : findByPid ps pid p.instances = .ok found) :
    stateOf (notifyTermination ps pid p) =
      { p with
        instances := markDone found p.instances
        status := if p.pendingTermination ∧ (markDone found p.instances).filter WorkerController.running = []
          then .completed else p.status } := by
  have hlast : ∀ q : ProcessorController,
      stateOf ((do
        let q ← get
        if q.pendingTermination ∧ q.runningInstances = [] then do
          set { q with status := .completed }
          pure true
        else pure false : PyM ProcessorController Bool) q)
      = { q with status := if q.pendingTermination ∧ q.runningInstances = [] then .completed else q.status } := by
    intro q
    rw [get_bind_apply]
    split
    · rfl
    · rfl
  rw [notifyTermination, get_bind_apply, h]
  cases found with
  | none => exact hlast p
  | some n => exact hlast { p with instances := p.instances.modify n WorkerController.notifyTermination }

theorem inOrder_notifyTermination (ps : ℕ → Except PyError (List ℕ)) (pid : ℕ) :
    Keeps (InOrder key) (notifyTermination ps pid) := by
  intro p hp
  cases h : findByPid ps pid p.instances with
  | error e =>
    rw [notifyTermination_error h]
    exact hp
  | ok found =>
    rw [stateOf_notifyTermination h]
    refine ⟨hp.id, fun i hi => ?_⟩
    obtain ⟨n, hn⟩ := List.mem_iff_getElem?.mp hi
    rw [getElem?_markDone] at hn
    obtain ⟨j, hj, rfl⟩ := Option.map_eq_some_iff.mp hn
    have hlisted := hp.instances j (List.mem_of_getElem? hj)
    split
    · exact ⟨hlisted.1, InstanceState.noConfusion⟩
    · exact hlisted

/-! ### When only DONE instances are COMPLETED -/

/-- A call that leaves DONE instances DONE. -/
theorem completedDone_onInstance {n : ℕ} {m : PyM WorkerController Unit} (hm : Keeps (fun i => i.isDone) m) :
    Keeps CompletedDone (onInstance n m) := by
  intro p hp
  have hstatus : (stateOf (onInstance n m p)).status = p.status := by
    rw [onInstance]
    cases hn : p.instances[n]? with
    | none => rfl
    | some i =>
      cases hcall : m i with
      | ok _ i' | error _ i' => simp only [hcall, stateOf]
  intro hcompleted
  exact keeps_onInstance hm p (hp (hstatus.symm.trans hcompleted))

theorem completedDone_launchInstance_iff (h : p.CompletedDone) (pid : ℕ) (colour : String) :
    (stateOf (launchInstance pid colour p)).CompletedDone ↔ (isGiven p.proc.entry → p.status ≠ .completed) := by
  by_cases hgiven : isGiven p.proc.entry
  · rw [launchInstance_ok hgiven]
    constructor
    · intro hafter _ hcompleted
      have hnew := hafter hcompleted _ (List.mem_append_right _ List.mem_cons_self)
      cases hnew
    · intro hcond hcompleted
      exact absurd hcompleted (hcond hgiven)
  · rw [launchInstance_error hgiven]
    exact iff_of_true h fun hgiven' => absurd hgiven' hgiven

theorem requestAll_ok {instances : List WorkerController} (h : ∀ i ∈ instances, i.connected) :
    ∃ instances', requestAll instances = .ok () instances' := by
  induction instances with
  | nil => exact ⟨[], rfl⟩
  | cons i instances ih =>
    rw [List.forall_mem_cons] at h
    obtain ⟨instances', hrest⟩ := ih h.2
    rw [requestAll, WorkerController.requestTermination_ok h.1, hrest]
    exact ⟨_, rfl⟩

/-- A loop that raises has left the instance at which it does PENDING_TERMINATION. -/
theorem requestAll_error {instances : List WorkerController} (h : ∃ i ∈ instances, ¬ i.connected) :
    ∃ e instances', requestAll instances = .error e instances' ∧ ∃ i ∈ instances', ¬ i.isDone := by
  induction instances with
  | nil =>
    obtain ⟨i, hi, -⟩ := h
    cases hi
  | cons i instances ih =>
    by_cases hi : i.connected
    · have hlater : ∃ j ∈ instances, ¬ j.connected := by
        obtain ⟨j, hj, hnot⟩ := h
        rcases List.mem_cons.mp hj with rfl | hj
        · exact absurd hi hnot
        · exact ⟨j, hj, hnot⟩
      obtain ⟨e, instances', hrest, j, hj, hdone⟩ := ih hlater
      rw [requestAll, WorkerController.requestTermination_ok hi, hrest]
      exact ⟨e, _, rfl, j, List.mem_cons_of_mem _ hj, hdone⟩
    · rw [requestAll, WorkerController.requestTermination_error hi]
      exact ⟨_, _, rfl, _, List.mem_cons_self, Bool.false_ne_true⟩

theorem completedDone_requestTermination_iff (p : ProcessorController) :
    (stateOf (requestTermination p)).CompletedDone ↔ (p.status = .completed → ∀ i ∈ p.instances, i.connected) := by
  by_cases hall : ∀ i ∈ p.instances, i.connected
  · obtain ⟨instances, hcall⟩ := requestAll_ok hall
    rw [requestTermination, hcall]
    refine iff_of_true ?_ fun _ => hall
    intro hcompleted
    cases hcompleted
  · have hsome : ∃ i ∈ p.instances, ¬ i.connected := by
      push Not at hall
      exact hall
    obtain ⟨e, instances, hcall, j, hj, hdone⟩ := requestAll_error hsome
    rw [requestTermination, hcall]
    constructor
    · intro hafter hcompleted
      exact absurd (hafter hcompleted j hj) hdone
    · intro hcond hcompleted
      exact absurd (hcond hcompleted) hall

theorem completedDone_notifyTermination_iff (h : p.CompletedDone) (hrun : p.Idle) :
    (stateOf (notifyTermination ps pid p)).CompletedDone ↔
      (p.pendingTermination → ∀ found ∈ (findByPid ps pid p.instances).toOption, p.DoneBut found) := by
  cases hfind : findByPid ps pid p.instances with
  | error e =>
    rw [notifyTermination_error hfind]
    refine iff_of_true h fun _ found hfound => ?_
    cases hfound
  | ok found =>
    have hidle : (markDone found p.instances).filter WorkerController.running = [] := by
      rw [List.filter_eq_nil_iff]
      intro i hi hrunning
      have hstate : i.state = .running := of_decide_eq_true hrunning
      rcases mem_markDone hi with hi | hdone
      · exact hrun i hi hstate
      · rw [hdone] at hstate
        cases hstate
    have honly : (∀ found' ∈ (Except.ok found : Except PyError (Option ℕ)).toOption, p.DoneBut found') ↔
        ∀ i ∈ markDone found p.instances, i.isDone := by
      rw [forall_markDone_iff]
      exact ⟨fun hall => hall found rfl, fun hdone found' hfound' => Option.some.inj hfound' ▸ hdone⟩
    rw [stateOf_notifyTermination hfind, honly]
    -- nothing is running, so the request alone decides whether COMPLETED is set
    by_cases hpending : p.pendingTermination
    · rw [if_pos ⟨hpending, hidle⟩]
      exact ⟨fun hafter _ => hafter rfl, fun hdone _ => hdone hpending⟩
    · rw [if_neg fun hboth => hpending hboth.1]
      refine iff_of_true ?_ fun hpending' => absurd hpending' hpending
      intro hcompleted i hi
      rcases mem_markDone hi with hi | hdone
      · exact h hcompleted i hi
      · exact decide_eq_true hdone

end ProcessorController

/-! ## Every step and every run -/

namespace PipeController

variable {c c' : PipeController} {key : String} {e : CompletionEvent}

/-- What a call on a processor leaves is as it should be exactly when the processor is. -/
theorem completedDone_onProcessor_iff {α : Type} {m : PyM ProcessorController α} {cond : ProcessorController → Prop}
    (h : c.Every fun _ p => p.CompletedDone)
    (hiff : ∀ p, c.processors.get? key = some p → ((stateOf (m p)).CompletedDone ↔ cond p)) :
    (stateOf (onProcessor key m c)).Every (fun _ p => p.CompletedDone) ↔ ∀ p ∈ c.processors.get? key, cond p := by
  cases hp : c.processors.get? key with
  | none =>
    rw [stateOf_onProcessor_of_none hp]
    refine iff_of_true h fun p hp' => ?_
    cases hp'
  | some p =>
    rw [stateOf_onProcessor hp]
    constructor
    · intro hafter p' hp'
      obtain rfl := Option.some.inj hp'
      exact (hiff p hp).mp (hafter.get (get?_withProcessor c key _))
    · intro hcond
      exact h.withProcessor ((hiff p hp).mpr (hcond p rfl))

theorem keepsEvery_registerLaunchedInstance {Q : String → ProcessorController → Prop}
    {ps : ℕ → Except PyError (List ℕ)} {pid : ℕ}
    (hregister : ∀ key n, Keeps (Q key) (ProcessorController.onInstance n (WorkerController.registerLaunched ps pid))) :
    Keeps (Every Q) (registerLaunchedInstance ps pid) := by
  refine keeps_get_bind fun c hc => Keeps.bind (keeps_ofExcept _) (fun found => ?_) c hc
  rcases found with - | ⟨key, n⟩
  · exact keeps_throw _
  · exact keepsEvery_onProcessor (hregister key n)

theorem doneInstance_eq_some_iff {n : ℕ} {i : WorkerController} :
    c.doneInstance key n = some i ↔
      ∃ p, c.processors.get? key = some p ∧ p.instances[n]? = some i ∧ i.isDone := by
  rw [doneInstance, Option.filter_eq_some_iff, Option.bind_eq_some_iff]
  constructor
  · rintro ⟨⟨p, hp, hn⟩, hdone⟩
    exact ⟨p, hp, hn, hdone⟩
  · rintro ⟨p, hp, hn, hdone⟩
    exact ⟨⟨p, hp, hn⟩, hdone⟩

/-- The exit of an instance completes its processor, whatever the other instances do. -/
theorem stateOf_handleInstanceExit {p : ProcessorController} {n : ℕ} {i : WorkerController}
    (hp : c.processors.get? key = some p) (hkey : i.procId = key) :
    stateOf (handleInstanceExit key n i c) = c.withProcessor key
      { p with
        instances := if i.exitCode = some 0 then p.instances.eraseIdx n else p.instances
        status := .completed } := by
  rw [← congrArg (fun c => stateOf (handleInstanceExit key n i c)) (withProcessor_of_get? hp)]
  by_cases hcode : i.exitCode = some 0
  · rw [if_pos hcode, handleInstanceExit_remove hkey hcode]
    rfl
  · rw [if_neg hcode, handleInstanceExit_keep hkey hcode]
    rfl

/-- Without an instance that is DONE, the others are DONE exactly when all are. -/
theorem forall_isDone_ite_iff {instances : List WorkerController} {n : ℕ} {i : WorkerController}
    (hn : instances[n]? = some i) (hdone : i.isDone) (removed : Prop) [Decidable removed] :
    (∀ j ∈ if removed then instances.eraseIdx n else instances, j.isDone) ↔ ∀ j ∈ instances, j.isDone := by
  by_cases hremoved : removed
  · rw [if_pos hremoved]
    constructor
    · intro hothers j hj
      obtain ⟨m, hm⟩ := List.mem_iff_getElem?.mp hj
      by_cases heq : m = n
      · rw [heq, hn] at hm
        rw [← Option.some.inj hm]
        exact hdone
      · exact hothers j (List.mem_eraseIdx_iff_getElem?.mpr ⟨m, heq, hm⟩)
    · exact fun hall j hj => hall j ((List.eraseIdx_sublist _ n).mem hj)
  · rw [if_neg hremoved]

/-- A step leaves processors and instances in their places, and no instance RUNNING. -/
theorem inOrder_step (h : c.Every ProcessorController.InOrder) (hstep : completionStep c e = some c') :
    c'.Every ProcessorController.InOrder := by
  cases e with
  | launch key pid colour =>
    obtain rfl := Option.some.inj hstep
    exact keepsEvery_onProcessor (ProcessorController.inOrder_launchInstance pid colour) c h
  | register ps pid =>
    obtain rfl := Option.some.inj hstep
    refine keepsEvery_registerLaunchedInstance (fun key n => ?_) c h
    exact ProcessorController.inOrder_onInstance (WorkerController.listed_registerLaunched ps pid)
  | connection key n isOpen =>
    obtain rfl := Option.some.inj hstep
    refine keepsEvery_onProcessor (ProcessorController.inOrder_onInstance ?_) c h
    exact keeps_modify fun _ hi => hi
  | request key =>
    obtain rfl := Option.some.inj hstep
    exact keepsEvery_onProcessor ProcessorController.inOrder_requestTermination c h
  | notify ps pid key =>
    obtain rfl := Option.some.inj hstep
    exact keepsEvery_onProcessor (ProcessorController.inOrder_notifyTermination ps pid) c h
  | exit key n code lines =>
    obtain rfl := Option.some.inj hstep
    exact keepsEvery_onProcessor
      (ProcessorController.inOrder_onInstance (WorkerController.listed_exited code lines)) c h
  | handleExit key n =>
    obtain ⟨i, hi, rfl⟩ := Option.map_eq_some_iff.mp hstep
    obtain ⟨p, hp, hn, -⟩ := doneInstance_eq_some_iff.mp hi
    have hinOrder : p.InOrder key := h.get hp
    rw [stateOf_handleInstanceExit hp (hinOrder.instances i (List.mem_of_getElem? hn)).1]
    refine h.withProcessor ⟨hinOrder.id, fun j hj => hinOrder.instances j ?_⟩
    dsimp only at hj
    split at hj
    · exact (List.eraseIdx_sublist _ n).mem hj
    · exact hj

/-- A step that is enabled is sound when its end is. -/
theorem completionSound_iff_every (hstep : completionStep c e = some c') :
    c.CompletionSound e ↔ c'.Every fun _ p => p.CompletedDone := by
  constructor
  · exact fun hsound => hsound c' hstep
  · intro hafter d hd
    obtain rfl := Option.some.inj (hstep.symm.trans hd)
    exact hafter

/-- The exit of an instance completes its processor. -/
theorem completionSound_handleExit_iff (horder : c.Every ProcessorController.InOrder)
    (h : c.Every fun _ p => p.CompletedDone) {n : ℕ} :
    c.CompletionSound (.handleExit key n) ↔ c.CompletesLast (.handleExit key n) := by
  cases hi : c.doneInstance key n with
  | none =>
    refine iff_of_true ?_ ?_
    · intro d hd
      rw [completionStep, hi] at hd
      cases hd
    · intro p hp i hn hdone
      rw [doneInstance_eq_some_iff.mpr ⟨p, hp, hn, hdone⟩] at hi
      cases hi
  | some i =>
    obtain ⟨p, hp, hn, hdone⟩ := doneInstance_eq_some_iff.mp hi
    have hinOrder : p.InOrder key := horder.get hp
    have hkey : i.procId = key := (hinOrder.instances i (List.mem_of_getElem? hn)).1
    have hstep : completionStep c (.handleExit key n) = some (c.withProcessor key
        { p with
          instances := if i.exitCode = some 0 then p.instances.eraseIdx n else p.instances
          status := .completed }) := by
      rw [completionStep, hi, Option.map_some, stateOf_handleInstanceExit hp hkey]
    rw [completionSound_iff_every hstep]
    have hdones := forall_isDone_ite_iff hn hdone (i.exitCode = some 0)
    constructor
    · intro hafter p' hp' _ _ _
      obtain rfl := Option.some.inj (hp.symm.trans hp')
      exact hdones.mp (hafter.get (get?_withProcessor c key _) rfl)
    · intro hcond
      exact h.withProcessor fun _ => hdones.mpr (hcond p hp i hn hdone)

/-- A step is sound exactly under its condition. -/
theorem completionSound_iff (horder : c.Every ProcessorController.InOrder) (h : c.Every fun _ p => p.CompletedDone) :
    c.CompletionSound e ↔ c.CompletesLast e := by
  cases e with
  | launch key pid colour =>
    refine (completionSound_iff_every rfl).trans (completedDone_onProcessor_iff h fun p hp => ?_)
    exact ProcessorController.completedDone_launchInstance_iff (h.get hp) pid colour
  | register ps pid =>
    refine (completionSound_iff_every rfl).trans (iff_of_true ?_ trivial)
    refine keepsEvery_registerLaunchedInstance (fun key n => ?_) c h
    exact ProcessorController.completedDone_onInstance (WorkerController.keeps_registerLaunched_done ps pid)
  | connection key n isOpen =>
    refine (completionSound_iff_every rfl).trans (iff_of_true ?_ trivial)
    refine keepsEvery_onProcessor (Q := fun _ p => p.CompletedDone) (ProcessorController.completedDone_onInstance ?_) c h
    exact keeps_modify fun _ hi => hi
  | request key =>
    refine (completionSound_iff_every rfl).trans (completedDone_onProcessor_iff h fun p _ => ?_)
    exact ProcessorController.completedDone_requestTermination_iff p
  | notify ps pid key =>
    refine (completionSound_iff_every rfl).trans (completedDone_onProcessor_iff h fun p hp => ?_)
    have hinOrder : p.InOrder key := horder.get hp
    exact ProcessorController.completedDone_notifyTermination_iff (h.get hp) fun i hi => (hinOrder.instances i hi).2
  | exit key n code lines =>
    refine (completionSound_iff_every rfl).trans (iff_of_true ?_ trivial)
    exact keepsEvery_onProcessor (Q := fun _ p => p.CompletedDone)
      (ProcessorController.completedDone_onInstance (WorkerController.keeps_exited_done code lines)) c h
  | handleExit key n => exact completionSound_handleExit_iff horder h

theorem inOrder_load {pipe : APIPipe} (hkeyed : ∀ item ∈ pipe.processors.entries, item.2.id = item.1) :
    (load pipe).Every ProcessorController.InOrder := by
  intro item hitem
  obtain ⟨⟨key, proc⟩, hproc, rfl⟩ := List.mem_map.mp hitem
  exact ⟨hkeyed _ hproc, fun _ hi => absurd hi List.not_mem_nil⟩

theorem completedDone_load (pipe : APIPipe) : (load pipe).Every fun _ p => p.CompletedDone := by
  intro item hitem
  obtain ⟨⟨key, proc⟩, -, rfl⟩ := List.mem_map.mp hitem
  intro hcompleted
  cases hcompleted

/-- From the loaded pipe on, the processors that are COMPLETED have only DONE instances exactly as long as every step
meets its condition. -/
theorem completed_done_iff {pipe : APIPipe} (hkeyed : ∀ item ∈ pipe.processors.entries, item.2.id = item.1)
    (events : List CompletionEvent) :
    Along completionStep CompletionSound (load pipe) events ↔ Along completionStep CompletesLast (load pipe) events :=
  Along.iff_of_kept (fun c => c.Every ProcessorController.InOrder ∧ c.Every fun _ p => p.CompletedDone)
    (fun _ _ _ c' h hsound hstep => ⟨inOrder_step h.1 hstep, hsound c' hstep⟩)
    (fun _ _ _ h => completionSound_iff h.1 h.2) ⟨inOrder_load hkeyed, completedDone_load pipe⟩

/-! ## One worker and two -/

/-- A worker is launched, registers, is asked to stop and exits. -/
theorem completed_done_one_worker :
    Along completionStep CompletionSound (load APIPipe.oneChild)
      [.launch "a" 7 "", .register (fun _ => .ok []) 7, .connection "a" 0 true, .request "a",
        .notify (fun _ => .ok []) 7 "a", .exit "a" 0 0 [], .handleExit "a" 0] :=
  (completed_done_iff (by decide) _).mpr (by decide +kernel)

/-- Two workers of one processor are at work, and the process of the first ends. -/
def twoWorkers : List CompletionEvent :=
  [.launch "a" 7 "", .register (fun _ => .ok []) 7, .launch "a" 8 "", .register (fun _ => .ok []) 8,
    .exit "a" 0 0 []]

/-- The exit of the first of two workers completes their processor while the second is at work. -/
theorem first_exit_completes :
    (∃ c, runFrom completionStep (load APIPipe.oneChild) (twoWorkers ++ [.handleExit "a" 0]) = some c ∧
      ∃ p ∈ c.processors.values, p.status = .completed ∧ ∃ i ∈ p.instances, i.state = .ready) ∧
    ¬ Along completionStep CompletionSound (load APIPipe.oneChild) (twoWorkers ++ [.handleExit "a" 0]) := by
  have hrun : (runFrom completionStep (load APIPipe.oneChild) twoWorkers).any (fun c =>
      (completionStep c (.handleExit "a" 0)).any fun c' => decide (∃ p ∈ c'.processors.values,
        p.status = .completed ∧ ∃ i ∈ p.instances, i.state = .ready)) = true := by
    decide +kernel
  obtain ⟨c, hc, hrun⟩ := (Option.any_eq_true _ _).mp hrun
  obtain ⟨c', hc', hcompleted⟩ := (Option.any_eq_true _ _).mp hrun
  obtain ⟨p, hp, hstatus, i, hi, hready⟩ := of_decide_eq_true hcompleted
  refine ⟨⟨c', ?_, p, hp, hstatus, i, hi, hready⟩, ?_⟩
  · rw [runFrom_append, hc]
    show (completionStep c (.handleExit "a" 0)).bind some = some c'
    rw [hc', Option.bind_some]
  · intro h
    obtain ⟨item, hitem, rfl⟩ := List.mem_map.mp hp
    have hdone := h.last hc c' hc' item hitem hstatus i hi
    rw [WorkerController.isDone, hready] at hdone
    cases hdone

end PipeController

end Upipe
