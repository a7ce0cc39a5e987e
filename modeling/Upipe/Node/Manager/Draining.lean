import Upipe.Common.Runs
import Upipe.Node.Manager.Controllers

/-!
# Draining a pipe

After `request_termination` a pipe is to be drained from its root down: the next processor is asked to
stop once nothing upstream of it is left, and the pipe is completed once every instance is done.

`terminate_next_processor` looks for instances that are RUNNING. No step ever makes an instance RUNNING,
since `register` stops at READY (`Idle.step`): the search finds nothing, no processor is asked, and the
pipe is completed at once. `draining_safe_iff` says which runs are safe all the same.
-/

namespace Upipe

open Upipe.Common

namespace PipeController

/-! ## Events -/

/-- What can happen to a loaded pipe. -/
inductive PipeEvent where
  | start (launched : String → ℕ × String)
  | launch (key : String) (pid : ℕ) (colour : String)
  | register (ps : ℕ → Except PyError (List ℕ)) (pid : ℕ)
  | connection (key : String) (n : ℕ) (isOpen : Bool)
  | request
  | notify (ps : ℕ → Except PyError (List ℕ)) (pid : ℕ) (key : String)
  | exit (key : String) (n : ℕ) (code : ℤ) (lines : List Bytes)
  | runTask

/-- The process of an instance exits once, and the thread that polls it sees the exit. -/
def exited (code : ℤ) (lines : List Bytes) : PyM WorkerController Unit :=
  modify fun i =>
    if i.exitCode = none then { i with exitCode := some code }.handleExit lines else i

/-- One event. A call that raises leaves the changes it made before. -/
def pipeStep (drainList : APIPipe → List APIProcessor) (c : PipeController) :
    PipeEvent → Option PipeController
  | .start launched => some (stateOf (start launched c))
  | .launch key pid colour =>
      some (stateOf (onProcessor key (ProcessorController.launchInstance pid colour) c))
  | .register ps pid => some (stateOf (registerLaunchedInstance ps pid c))
  | .connection key n isOpen =>
      some (stateOf (onProcessor key (ProcessorController.onInstance n
        (modify fun i => { i with connected := isOpen })) c))
  | .request => some (stateOf (requestTermination drainList c))
  | .notify ps pid key => some (stateOf (notifyTermination drainList ps pid key c))
  | .exit key n code lines =>
      some (stateOf (onProcessor key (ProcessorController.onInstance n (exited code lines)) c))
  | .runTask => c.runTask

/-! ## Safety and its condition -/

/-- Every instance of every processor is DONE. -/
def AllDone (c : PipeController) : Prop :=
  ∀ p ∈ c.processors.values, ∀ i ∈ p.instances, i.isDone

instance (c : PipeController) : Decidable c.AllDone :=
  inferInstanceAs (Decidable (∀ p ∈ _, ∀ i ∈ _, _))

/-- Every instance of one processor is DONE. -/
def DoneAt (c : PipeController) (key : String) : Prop :=
  ∀ p, c.processors.get? key = some p → ∀ i ∈ p.instances, i.isDone

/-- A processor is asked to stop only after everything upstream of it, and the pipe is completed only when
all is done. -/
structure DrainSafe (drainList : APIPipe → List APIProcessor) (c : PipeController) (e : PipeEvent) :
    Prop where
  upstream_done : ∀ c', pipeStep drainList c e = some c' →
    ∀ key ∈ c'.requested.drop c.requested.length,
      ∀ up, Relation.TransGen c'.pipe.Feeds up key → c'.DoneAt up
  complete_done : ∀ c', pipeStep drainList c e = some c' →
    PipeExecutionStatus.completed ∈ c'.tasks.drop c.tasks.length → c'.AllDone

/-- The position, in the processor that a notice names, of the instance that it is for. -/
def noticed (c : PipeController) (ps : ℕ → Except PyError (List ℕ)) (pid : ℕ) (key : String) :
    Except PyError (Option ℕ) :=
  match c.processors.get? key with
  | none => .ok none
  | some p => ProcessorController.findByPid ps pid p.instances

/-- Every instance is DONE, except for the one that the notice is for. -/
def DoneBut (c : PipeController) (key : String) (found : Option ℕ) : Prop :=
  ∀ item ∈ c.processors.entries, ∀ n : Fin item.2.instances.length,
    item.2.instances[n].isDone ∨ (item.1 = key ∧ found = some n.val)

/-- The condition on a step: nothing else is left to drain when the request or, once the request is on
record, a notice comes. -/
def DrainedBy (c : PipeController) : PipeEvent → Prop
  | .request => c.AllDone
  | .notify ps pid key =>
      c.pendingTermination → ∀ found ∈ (c.noticed ps pid key).toOption, c.DoneBut key found
  | _ => True

instance (c : PipeController) (e : PipeEvent) : Decidable (c.DrainedBy e) :=
  match e with
  | .request => inferInstanceAs (Decidable c.AllDone)
  | .notify ps pid key =>
      inferInstanceAs (Decidable (_ → ∀ found ∈ (c.noticed ps pid key).toOption, ∀ item ∈ _,
        ∀ _ : Fin _, _))
  | .start .. | .launch .. | .register .. | .connection .. | .exit .. | .runTask => isTrue trivial

/-! ## No instance is ever RUNNING -/

end PipeController

namespace WorkerController

def NotRunning (i : WorkerController) : Prop := i.state ≠ .running

theorem requestTermination_ok {i : WorkerController} (h : i.connected) :
    requestTermination i = .ok () { i with state := .pendingTermination } := by
  have hconnected : { i with state := .pendingTermination }.connected = true := h
  rw [requestTermination, modify_bind_apply, get_bind_apply]
  exact congrFun (if_pos hconnected) _

/-- A request raises without a connection, after it has changed the state. -/
theorem requestTermination_error {i : WorkerController} (h : ¬ i.connected) :
    requestTermination i
      = .error ⟨.attributeError, "'NoneType' object has no attribute 'send_json'"⟩
          { i with state := .pendingTermination } := by
  have hconnected : ¬ { i with state := .pendingTermination }.connected = true := h
  rw [requestTermination, modify_bind_apply, get_bind_apply]
  exact congrFun (if_neg hconnected) _

/-- `register` leaves the instance READY, also when it raises. -/
theorem keeps_register (ps : ℕ → Except PyError (List ℕ)) (pid : ℕ) :
    Keeps NotRunning (register ps pid) := by
  refine Keeps.bind (keeps_modify fun _ _ => InstanceState.noConfusion) fun _ => ?_
  refine keeps_get_bind fun i hi => ?_
  split
  · exact hi
  · refine Keeps.bind (keeps_ofExcept _) (fun isChild => ?_) i hi
    split
    · exact keeps_pure _
    · exact keeps_throw _

theorem keeps_exited (code : ℤ) (lines : List Bytes) :
    Keeps NotRunning (PipeController.exited code lines) := by
  refine keeps_modify fun i hi => ?_
  split
  · rw [handleExit]
    split <;> exact InstanceState.noConfusion
  · exact hi

end WorkerController

/-- No instance of the processor is RUNNING. -/
def ProcessorController.Idle (p : ProcessorController) : Prop :=
  ∀ i ∈ p.instances, i.NotRunning

namespace ProcessorController

theorem Idle.runningInstances_eq_nil {p : ProcessorController} (h : p.Idle) :
    p.runningInstances = [] := by
  rw [runningInstances, List.filter_eq_nil_iff]
  intro i hi hrun
  exact h i hi (of_decide_eq_true hrun)

/-- A call on an instance keeps what holds of all instances, when it keeps it of one. -/
theorem keeps_onInstance {R : WorkerController → Prop} {n : ℕ} {m : PyM WorkerController Unit} (hm : Keeps R m) :
    Keeps (fun p => ∀ i ∈ p.instances, R i) (onInstance n m) := by
  intro p hp
  rw [onInstance]
  cases hn : p.instances[n]? with
  | none => exact hp
  | some i =>
    have hi := hm i (hp i (List.mem_of_getElem? hn))
    cases hcall : m i with
    | ok _ i' | error _ i' =>
      rw [hcall] at hi
      simp only [hcall]
      intro j hj
      rcases List.mem_or_eq_of_mem_set hj with hj | rfl
      · exact hp j hj
      · exact hi

theorem keeps_launchInstance (pid : ℕ) (colour : String) : Keeps Idle (launchInstance pid colour) := by
  intro p hp
  rw [launchInstance, get_bind_apply]
  split
  · intro i hi
    rcases List.mem_append.mp hi with hi | hi
    · exact hp i hi
    · rw [List.mem_singleton.mp hi]
      exact InstanceState.noConfusion
  · exact hp

/-- The instances after a notice for the one at a position. -/
def markDone : Option ℕ → List WorkerController → List WorkerController
  | some n, instances => instances.modify n WorkerController.notifyTermination
  | none, instances => instances

/-- A notice whose lookup returns marks the instance found, and the call returns. -/
theorem notifyTermination_ok {ps : ℕ → Except PyError (List ℕ)} {pid : ℕ} {p : ProcessorController}
    {found : Option ℕ} (h : findByPid ps pid p.instances = .ok found) :
    ∃ last p', notifyTermination ps pid p = .ok last p'
      ∧ p'.instances = markDone found p.instances := by
  have hstep : ∀ (b : Prop) [Decidable b] (p' : ProcessorController),
      ∃ last p'', (if b then do set { p' with status := .completed }; pure true else pure false
          : PyM ProcessorController Bool) p' = .ok last p'' ∧ p''.instances = p'.instances := by
    intro b _ p'
    split
    · exact ⟨_, _, rfl, rfl⟩
    · exact ⟨_, _, rfl, rfl⟩
  rw [notifyTermination, get_bind_apply, h]
  cases found with
  | none => exact hstep _ p
  | some n => exact hstep _ { p with instances := p.instances.modify n WorkerController.notifyTermination }

/-- A notice whose lookup raises changes nothing. -/
theorem notifyTermination_error {ps : ℕ → Except PyError (List ℕ)} {pid : ℕ}
    {p : ProcessorController} {e : PyError} (h : findByPid ps pid p.instances = .error e) :
    notifyTermination ps pid p = .error e p := by
  rw [notifyTermination, get_bind_apply, h]
  rfl

theorem getElem?_markDone (found : Option ℕ) (instances : List WorkerController) (n : ℕ) :
    (markDone found instances)[n]?
      = instances[n]?.map fun i => if found = some n then i.notifyTermination else i := by
  cases found with
  | none =>
    rw [markDone]
    simp only [reduceCtorEq, if_false, Option.map_id']
  | some m =>
    rw [markDone, List.getElem?_modify]
    simp only [Option.some.injEq]
    rfl

/-- A notice changes no instance but the one it is for, and leaves that one DONE. -/
theorem mem_markDone {found : Option ℕ} {instances : List WorkerController} {i : WorkerController}
    (h : i ∈ markDone found instances) : i ∈ instances ∨ i.state = .done := by
  obtain ⟨n, hn⟩ := List.mem_iff_getElem?.mp h
  rw [getElem?_markDone] at hn
  obtain ⟨j, hj, rfl⟩ := Option.map_eq_some_iff.mp hn
  by_cases hfound : found = some n
  · right
    rw [if_pos hfound]
    rfl
  · left
    rw [if_neg hfound]
    exact List.mem_of_getElem? hj

/-- After a notice all is done exactly when all but the instance it was for was done before. -/
theorem forall_markDone_iff {found : Option ℕ} {instances : List WorkerController} :
    (∀ i ∈ markDone found instances, i.isDone)
      ↔ ∀ n : Fin instances.length, instances[n].isDone ∨ found = some n.val := by
  constructor
  · intro h n
    by_cases hfound : found = some n.val
    · exact Or.inr hfound
    · left
      apply h
      rw [List.mem_iff_getElem?]
      refine ⟨n.val, ?_⟩
      rw [getElem?_markDone, List.getElem?_eq_getElem n.isLt, Option.map_some, if_neg hfound]
      rfl
  · intro h i hi
    obtain ⟨n, hn⟩ := List.mem_iff_getElem?.mp hi
    rw [getElem?_markDone] at hn
    obtain ⟨j, hj, rfl⟩ := Option.map_eq_some_iff.mp hn
    by_cases hfound : found = some n
    · rw [if_pos hfound]
      rfl
    · rw [if_neg hfound]
      obtain ⟨hlt, rfl⟩ := List.getElem?_eq_some_iff.mp hj
      exact (h ⟨n, hlt⟩).resolve_right hfound

theorem keeps_notifyTermination (ps : ℕ → Except PyError (List ℕ)) (pid : ℕ) :
    Keeps Idle (notifyTermination ps pid) := by
  intro p hp
  cases h : findByPid ps pid p.instances with
  | error e =>
    rw [notifyTermination_error h]
    exact hp
  | ok found =>
    obtain ⟨last, p', hcall, hinst⟩ := notifyTermination_ok h
    rw [hcall]
    intro i hi
    rw [stateOf_ok, hinst] at hi
    rcases mem_markDone hi with hi | hi
    · exact hp i hi
    · rw [WorkerController.NotRunning, hi]
      exact InstanceState.noConfusion

end ProcessorController

namespace PipeController

/-- A controller of the pipe, with one processor controller for each processor and no instance RUNNING.
None of its processors has been asked to stop. -/
structure Idle (pipe : APIPipe) (c : PipeController) : Prop where
  pipe_eq : c.pipe = pipe
  keys_eq : c.processors.keys = pipe.processors.keys
  idle : ∀ p ∈ c.processors.values, p.Idle
  unrequested : c.requested = []

variable {pipe : APIPipe} {drainList : APIPipe → List APIProcessor}

theorem idle_load (pipe : APIPipe) : Idle pipe (load pipe) where
  pipe_eq := rfl
  keys_eq := Dict.keys_map _ _
  idle p hp := by
    rw [load, Dict.values_map] at hp
    obtain ⟨proc, -, rfl⟩ := List.mem_map.mp hp
    intro i hi
    cases hi
  unrequested := rfl

theorem Idle.setProcessor {c : PipeController} (h : Idle pipe c) {key : String}
    {p p' : ProcessorController} (hp : c.processors.get? key = some p) (hidle : p'.Idle) :
    Idle pipe { c with processors := c.processors.set key p' } where
  pipe_eq := h.pipe_eq
  keys_eq := by
    show (c.processors.set key p').keys = _
    rw [c.processors.keys_set_of_mem p' (c.processors.mem_keys_of_get? hp), h.keys_eq]
  idle q hq := by
    obtain ⟨⟨l, w⟩, hmem, rfl⟩ := List.mem_map.mp hq
    rcases c.processors.mem_entries_set.mp hmem with ⟨-, rfl⟩ | ⟨-, hmem⟩
    · exact hidle
    · exact h.idle w (List.mem_map_of_mem (f := Prod.snd) hmem)
  unrequested := h.unrequested

theorem keeps_onProcessor {α : Type} (key : String) {m : PyM ProcessorController α}
    (hm : Keeps ProcessorController.Idle m) : Keeps (Idle pipe) (onProcessor key m) := by
  intro c hc
  rw [onProcessor]
  cases hp : c.processors.get? key with
  | none => exact hc
  | some p =>
    have hmem := List.mem_map_of_mem (f := Prod.snd) (c.processors.get?_eq_some_iff.mp hp)
    have hp' := hm p (hc.idle p hmem)
    cases hcall : m p with
    | ok a p' | error e p' =>
      rw [hcall] at hp'
      simp only [hcall]
      exact hc.setProcessor hp hp'

theorem Idle.scheduled {c : PipeController} (h : Idle pipe c) (status : PipeExecutionStatus) :
    Idle pipe (schedule status c) :=
  { h with }

theorem keeps_start (launched : String → ℕ × String) : Keeps (Idle pipe) (start launched) := by
  have hall : ∀ keys, Keeps (Idle pipe) (launchAll launched keys) := by
    intro keys
    induction keys with
    | nil => exact keeps_pure ()
    | cons key keys ih =>
      refine Keeps.bind (keeps_onProcessor key (keeps_get_bind fun p hp => ?_)) fun _ => ih
      split
      · exact ProcessorController.keeps_launchInstance _ _ p hp
      · exact hp
  refine keeps_get_bind fun c hc => ?_
  split
  · exact hc
  · exact Keeps.bind (hall _) (fun _ => keeps_modify fun c hc => hc.scheduled .running) c hc

theorem keeps_registerLaunchedInstance (ps : ℕ → Except PyError (List ℕ)) (pid : ℕ) :
    Keeps (Idle pipe) (registerLaunchedInstance ps pid) := by
  refine keeps_get_bind fun c hc => ?_
  refine Keeps.bind (keeps_ofExcept _) (fun found => ?_) c hc
  rcases found with - | ⟨key, n⟩
  · exact keeps_throw _
  · refine keeps_onProcessor key (ProcessorController.keeps_onInstance (keeps_get_bind fun i hi => ?_))
    split
    · exact WorkerController.keeps_register ps pid i hi
    · exact hi

/-! ## The search for the next processor -/

/-- `drain_list` names processors of the pipe. -/
theorem APIPipe.DrainOrder.ids_mem (hdag : pipe.IsDag) {order : List APIProcessor}
    (horder : pipe.DrainOrder order) {proc : APIProcessor} (hproc : proc ∈ order) :
    proc.id ∈ pipe.processors.keys := by
  obtain ⟨⟨key, proc'⟩, hmem, rfl⟩ := List.mem_map.mp ((horder.mem_iff proc).mp hproc).1
  have hid : proc'.id = key := hdag.keyed _ hmem
  rw [hid]
  exact List.mem_map_of_mem (f := Prod.fst) hmem

theorem Idle.nextProcessor_eq_none {c : PipeController} (h : Idle pipe c)
    {order : List APIProcessor} (horder : ∀ proc ∈ order, proc.id ∈ pipe.processors.keys) :
    c.nextProcessor order = .ok none := by
  induction order with
  | nil => rfl
  | cons proc order ih =>
    have hkey : proc.id ∈ c.processors.keys := h.keys_eq ▸ horder proc List.mem_cons_self
    obtain ⟨p, hp⟩ := Option.ne_none_iff_exists'.mp (mt c.processors.get?_eq_none_iff.mp
      (not_not_intro hkey))
    -- the search goes on: nothing of this processor is RUNNING
    have hidle := h.idle p (List.mem_map_of_mem (f := Prod.snd) (c.processors.get?_eq_some_iff.mp hp))
    rw [nextProcessor, processor, hp]
    show (if p.runningInstancesNum = 0 then c.nextProcessor order else _) = _
    rw [if_pos (by rw [ProcessorController.runningInstancesNum, hidle.runningInstances_eq_nil,
      List.length_nil])]
    exact ih fun proc' hproc' => horder proc' (List.mem_cons_of_mem _ hproc')

theorem Idle.runningProcessorsNum_eq_zero {c : PipeController} (h : Idle pipe c) :
    c.runningProcessorsNum = 0 := by
  rw [runningProcessorsNum, List.length_eq_zero_iff, runningProcessors, List.filter_eq_nil_iff]
  intro p hp hpos
  rw [ProcessorController.runningInstancesNum, (h.idle p hp).runningInstances_eq_nil] at hpos
  exact absurd (of_decide_eq_true hpos) (Nat.lt_irrefl 0)

/-- With no instance RUNNING the pipe is completed and no processor is asked. -/
theorem Idle.terminateNextProcessor_eq {c : PipeController} (h : Idle pipe c)
    (hlist : ∀ proc ∈ drainList pipe, proc.id ∈ pipe.processors.keys) :
    terminateNextProcessor drainList c = .ok () (schedule .completed c) := by
  have hnext : c.nextProcessor (drainList c.pipe) = .ok none := by
    rw [h.pipe_eq]
    exact h.nextProcessor_eq_none hlist
  rw [terminateNextProcessor, get_bind_apply, hnext]
  show (if c.runningProcessorsNum = 0 then modify (schedule .completed) else pure ()
    : PyM PipeController Unit) c = _
  rw [if_pos h.runningProcessorsNum_eq_zero]
  rfl

theorem Idle.requestTermination_eq {c : PipeController} (h : Idle pipe c)
    (hlist : ∀ proc ∈ drainList pipe, proc.id ∈ pipe.processors.keys) :
    requestTermination drainList c
      = .ok () (schedule .completed (schedule .pendingTermination c)) := by
  rw [requestTermination, modify_bind_apply]
  exact (h.scheduled .pendingTermination).terminateNextProcessor_eq hlist

/-! ## What a notice does -/

/-- A call on one processor changes nothing else of the pipe. -/
theorem onProcessor_eq {α : Type} (key : String) (m : PyM ProcessorController α)
    (c : PipeController) :
    ∃ processors, stateOf (onProcessor key m c) = { c with processors := processors } := by
  rw [onProcessor]
  cases hp : c.processors.get? key with
  | none => exact ⟨c.processors, rfl⟩
  | some p =>
    cases hcall : m p with
    | ok a p' | error e p' =>
      simp only [hcall]
      exact ⟨_, rfl⟩

/-- A notice whose lookup returns leaves its processor with the instance found marked. -/
theorem onProcessor_notify {c : PipeController} {ps : ℕ → Except PyError (List ℕ)} {pid : ℕ}
    {key : String} {p : ProcessorController} {found : Option ℕ}
    (hp : c.processors.get? key = some p)
    (hfound : ProcessorController.findByPid ps pid p.instances = .ok found) :
    ∃ last p', onProcessor key (ProcessorController.notifyTermination ps pid) c
        = .ok last { c with processors := c.processors.set key p' }
      ∧ p'.instances = ProcessorController.markDone found p.instances := by
  obtain ⟨last, p', hcall, hinst⟩ := ProcessorController.notifyTermination_ok hfound
  refine ⟨last, p', ?_, hinst⟩
  rw [onProcessor, hp]
  simp only [hcall]

/-- After the mark all is done exactly when all but the instance found was done before. -/
theorem allDone_set_iff {c : PipeController} {key : String} {p p' : ProcessorController}
    {found : Option ℕ} (hp : c.processors.get? key = some p)
    (hinst : p'.instances = ProcessorController.markDone found p.instances) :
    AllDone { c with processors := c.processors.set key p' } ↔ c.DoneBut key found := by
  have hmem := c.processors.get?_eq_some_iff.mp hp
  constructor
  · rintro hall ⟨l, w⟩ hitem n
    by_cases hl : l = key
    · -- the processor of the notice
      subst hl
      obtain rfl := c.processors.value_unique hitem hmem
      have hp' : p' ∈ (c.processors.set l p').values :=
        List.mem_map_of_mem (f := Prod.snd) (c.processors.mem_entries_set.mpr (Or.inl ⟨rfl, rfl⟩))
      have hdone := hall p' hp'
      rw [hinst, ProcessorController.forall_markDone_iff] at hdone
      exact (hdone n).imp id fun h => ⟨rfl, h⟩
    · have hw : w ∈ (c.processors.set key p').values :=
        List.mem_map_of_mem (f := Prod.snd)
          (c.processors.mem_entries_set.mpr (Or.inr ⟨hl, hitem⟩))
      exact Or.inl (hall w hw _ (List.getElem_mem n.isLt))
  · intro hbut q hq i hi
    obtain ⟨⟨l, w⟩, hitem, rfl⟩ := List.mem_map.mp hq
    rcases c.processors.mem_entries_set.mp hitem with ⟨rfl, rfl⟩ | ⟨hl, hitem⟩
    · rw [hinst] at hi
      refine ProcessorController.forall_markDone_iff.mpr ?_ i hi
      intro n
      exact (hbut _ hmem n).imp id And.right
    · obtain ⟨n, hn, rfl⟩ := List.mem_iff_getElem.mp hi
      exact (hbut _ hitem ⟨n, hn⟩).resolve_right fun h => hl h.1

/-- A notice that finds no instance leaves all of them to be done. -/
theorem allDone_iff_doneBut {c : PipeController} {key : String} :
    c.AllDone ↔ c.DoneBut key none := by
  constructor
  · rintro hall ⟨l, w⟩ hitem n
    exact Or.inl (hall w (List.mem_map_of_mem (f := Prod.snd) hitem) _ (List.getElem_mem n.isLt))
  · intro hbut q hq i hi
    obtain ⟨⟨l, w⟩, hitem, rfl⟩ := List.mem_map.mp hq
    obtain ⟨n, hn, rfl⟩ := List.mem_iff_getElem.mp hi
    rcases hbut _ hitem ⟨n, hn⟩ with hdone | ⟨-, hfound⟩
    · exact hdone
    · cases hfound

/-- What follows the mark in `notify_termination`. -/
def goOn (drainList : APIPipe → List APIProcessor) : PyM PipeController Unit := do
  let c ← get
  if c.pendingTermination then terminateNextProcessor drainList else pure ()

theorem Idle.goOn_of_pending {c : PipeController} (h : Idle pipe c)
    (hlist : ∀ proc ∈ drainList pipe, proc.id ∈ pipe.processors.keys) (hpend : c.pendingTermination) :
    goOn drainList c = .ok () (schedule .completed c) := by
  rw [goOn, get_bind_apply, if_pos hpend]
  exact h.terminateNextProcessor_eq hlist

theorem goOn_of_not_pending {c : PipeController} (hpend : ¬ c.pendingTermination) :
    goOn drainList c = .ok () c := by
  rw [goOn, get_bind_apply, if_neg hpend]
  rfl

theorem keeps_goOn (hlist : ∀ proc ∈ drainList pipe, proc.id ∈ pipe.processors.keys) :
    Keeps (Idle pipe) (goOn drainList) := by
  intro c hc
  by_cases hpend : c.pendingTermination
  · rw [hc.goOn_of_pending hlist hpend]
    exact hc.scheduled .completed
  · rw [goOn_of_not_pending hpend]
    exact hc

theorem keeps_notifyTermination (hlist : ∀ proc ∈ drainList pipe, proc.id ∈ pipe.processors.keys)
    (ps : ℕ → Except PyError (List ℕ)) (pid : ℕ) (key : String) :
    Keeps (Idle pipe) (notifyTermination drainList ps pid key) := by
  refine keeps_get_bind fun c hc => ?_
  split
  · have hmark := ProcessorController.keeps_notifyTermination ps pid
    exact Keeps.bind (keeps_onProcessor key hmark) (fun _ => keeps_goOn hlist) c hc
  · exact keeps_goOn hlist c hc

/-- A notice whose lookup returns goes on from a pipe in which all is done exactly when all but the
instance found was done before. -/
theorem Idle.notify_of_ok {c : PipeController} (h : Idle pipe c)
    (drainList : APIPipe → List APIProcessor) {ps : ℕ → Except PyError (List ℕ)} {pid : ℕ}
    {key : String} {found : Option ℕ} (hfound : c.noticed ps pid key = .ok found) :
    ∃ processors, let c' := { c with processors := processors }
      Idle pipe c' ∧ (c'.AllDone ↔ c.DoneBut key found)
        ∧ notifyTermination drainList ps pid key c = goOn drainList c' := by
  rw [notifyTermination, get_bind_apply]
  cases hp : c.processors.get? key with
  | none =>
    have hkey : c.processors.contains key = false :=
      decide_eq_false (c.processors.get?_eq_none_iff.mp hp)
    rw [noticed, hp, Except.ok.injEq] at hfound
    subst hfound
    refine ⟨c.processors, h, allDone_iff_doneBut, ?_⟩
    rw [hkey, if_neg Bool.false_ne_true]
    rfl
  | some p =>
    have hkey : c.processors.contains key = true :=
      decide_eq_true (c.processors.mem_keys_of_get? hp)
    rw [noticed, hp] at hfound
    obtain ⟨last, p', hcall, hinst⟩ := onProcessor_notify hp hfound
    have hidle := keeps_onProcessor key (ProcessorController.keeps_notifyTermination ps pid) c h
    rw [hcall] at hidle
    refine ⟨c.processors.set key p', hidle, allDone_set_iff hp hinst, ?_⟩
    rw [hkey, if_pos rfl]
    exact bind_ok hcall

/-- A notice whose lookup raises ends there. -/
theorem notify_of_error (drainList : APIPipe → List APIProcessor) {c : PipeController}
    {ps : ℕ → Except PyError (List ℕ)} {pid : ℕ} {key : String} {e : PyError} (herror : c.noticed ps pid key = .error e) :
    ∃ processors, stateOf (notifyTermination drainList ps pid key c)
      = { c with processors := processors } := by
  rw [noticed] at herror
  cases hp : c.processors.get? key with
  | none =>
    rw [hp] at herror
    cases herror
  | some p =>
    rw [hp] at herror
    have hkey : c.processors.contains key = true :=
      decide_eq_true (c.processors.mem_keys_of_get? hp)
    have hcall : onProcessor key (ProcessorController.notifyTermination ps pid) c
        = .error e { c with processors := c.processors.set key p } := by
      rw [onProcessor, hp]
      simp only [ProcessorController.notifyTermination_error herror]
    rw [notifyTermination, get_bind_apply, hkey, if_pos rfl, bind_error hcall]
    exact ⟨_, rfl⟩

/-! ## Every step and every run -/

/-- The pipe stays idle: nothing sets RUNNING, and so nothing is asked to stop. -/
theorem Idle.step {c c' : PipeController} (h : Idle pipe c)
    (hlist : ∀ proc ∈ drainList pipe, proc.id ∈ pipe.processors.keys) {e : PipeEvent}
    (hstep : pipeStep drainList c e = some c') : Idle pipe c' := by
  cases e with
  | start launched =>
    cases hstep
    exact keeps_start launched c h
  | launch key pid colour =>
    cases hstep
    exact keeps_onProcessor key (ProcessorController.keeps_launchInstance pid colour) c h
  | register ps pid =>
    cases hstep
    exact keeps_registerLaunchedInstance ps pid c h
  | connection key n isOpen =>
    cases hstep
    refine keeps_onProcessor key (ProcessorController.keeps_onInstance ?_) c h
    exact keeps_modify fun _ hi => hi
  | request =>
    cases hstep
    rw [h.requestTermination_eq hlist]
    exact (h.scheduled _).scheduled _
  | notify ps pid key =>
    cases hstep
    exact keeps_notifyTermination hlist ps pid key c h
  | exit key n code lines =>
    cases hstep
    exact keeps_onProcessor key (ProcessorController.keeps_onInstance
      (WorkerController.keeps_exited code lines)) c h
  | runTask =>
    rw [pipeStep, runTask] at hstep
    cases htasks : c.tasks with
    | nil =>
      rw [htasks] at hstep
      cases hstep
    | cons status tasks =>
      rw [htasks] at hstep
      cases hstep
      exact { h with }

/-- The changes of a call that asks no processor and does not complete the pipe. -/
def Quiet (c c' : PipeController) : Prop :=
  c'.requested = c.requested ∧ ∃ added, c'.tasks = c.tasks ++ added ∧ .completed ∉ added

theorem quiet_of_processors (c : PipeController) (processors : Dict String ProcessorController) :
    Quiet c { c with processors := processors } :=
  ⟨rfl, [], (List.append_nil _).symm, List.not_mem_nil⟩

theorem quiet_onProcessor {α : Type} (c : PipeController) (key : String)
    (m : PyM ProcessorController α) : Keeps (Quiet c) (onProcessor key m) := by
  intro c' hc'
  obtain ⟨processors, hcall⟩ := onProcessor_eq key m c'
  rw [hcall]
  exact hc'

theorem quiet_start (c : PipeController) (launched : String → ℕ × String) :
    Quiet c (stateOf (start launched c)) := by
  have hall : ∀ keys, Keeps (Quiet c) (launchAll launched keys) := by
    intro keys
    induction keys with
    | nil => exact keeps_pure ()
    | cons key keys ih => exact (quiet_onProcessor c key _).bind fun _ => ih
  have hc : Quiet c c := quiet_of_processors c c.processors
  rw [start, get_bind_apply]
  split
  · exact hc
  · refine Keeps.bind (hall _) (fun _ => keeps_modify ?_) c hc
    rintro c' ⟨hreq, added, htasks, hadded⟩
    refine ⟨hreq, added ++ [.running], ?_, ?_⟩
    · rw [schedule, htasks, List.append_assoc]
    · intro hmem
      rcases List.mem_append.mp hmem with hmem | hmem
      · exact hadded hmem
      · cases List.mem_singleton.mp hmem

theorem quiet_registerLaunchedInstance (c : PipeController) (ps : ℕ → Except PyError (List ℕ))
    (pid : ℕ) : Quiet c (stateOf (registerLaunchedInstance ps pid c)) := by
  have hc : Quiet c c := quiet_of_processors c c.processors
  rw [registerLaunchedInstance, get_bind_apply]
  refine Keeps.bind (keeps_ofExcept _) (fun found => ?_) c hc
  rcases found with - | ⟨key, n⟩
  · exact keeps_throw _
  · exact quiet_onProcessor c key _

/-- A quiet step is safe. -/
theorem Quiet.drainSafe {c c' : PipeController} {e : PipeEvent}
    (hstep : pipeStep drainList c e = some c') (h : Quiet c c') : DrainSafe drainList c e := by
  obtain ⟨hreq, added, htasks, hadded⟩ := h
  constructor
  · intro c'' hstep' key hkey
    obtain rfl := Option.some.inj (hstep.symm.trans hstep')
    rw [hreq, List.drop_length] at hkey
    cases hkey
  · intro c'' hstep' hmem
    obtain rfl := Option.some.inj (hstep.symm.trans hstep')
    rw [htasks, List.drop_left] at hmem
    exact absurd hmem hadded

/-- A step that only completes the pipe is safe exactly when all is done by then. -/
theorem drainSafe_iff_of_completed {c : PipeController} (c' : PipeController) {e : PipeEvent}
    (hstep : pipeStep drainList c e = some (schedule .completed c'))
    (hreq : c'.requested = c.requested) {added : List PipeExecutionStatus}
    (htasks : c'.tasks = c.tasks ++ added) : DrainSafe drainList c e ↔ c'.AllDone := by
  constructor
  · intro h
    refine h.complete_done (schedule .completed c') hstep ?_
    show _ ∈ (c'.tasks ++ [PipeExecutionStatus.completed]).drop c.tasks.length
    rw [htasks, List.append_assoc, List.drop_left, List.mem_append]
    exact Or.inr (List.mem_singleton.mpr rfl)
  · intro hall
    constructor
    · intro c'' hstep' key hkey
      obtain rfl := Option.some.inj (hstep.symm.trans hstep')
      rw [schedule, hreq, List.drop_length] at hkey
      cases hkey
    · intro c'' hstep' _
      obtain rfl := Option.some.inj (hstep.symm.trans hstep')
      exact hall

/-- The turn of the event loop only takes a task away. -/
theorem drainSafe_runTask (c : PipeController) : DrainSafe drainList c .runTask := by
  have hrun : ∀ c', pipeStep drainList c .runTask = some c' →
      c'.requested = c.requested ∧ c'.tasks.length ≤ c.tasks.length := by
    intro c' hstep
    rw [pipeStep, runTask] at hstep
    split at hstep
    · cases hstep
    · rename_i status tasks htasks
      cases hstep
      exact ⟨rfl, htasks ▸ Nat.le_succ _⟩
  constructor
  · intro c' hstep key hkey
    rw [(hrun c' hstep).1, List.drop_length] at hkey
    cases hkey
  · intro c' hstep hmem
    rw [List.drop_eq_nil_of_le (hrun c' hstep).2] at hmem
    cases hmem

/-- A notice is safe when its lookup raises, when the request is not on record, or when all but the
instance it is for is done. -/
theorem Idle.drainSafe_notify_iff {c : PipeController} (h : Idle pipe c)
    (hlist : ∀ proc ∈ drainList pipe, proc.id ∈ pipe.processors.keys)
    (ps : ℕ → Except PyError (List ℕ)) (pid : ℕ) (key : String) :
    DrainSafe drainList c (.notify ps pid key) ↔ c.DrainedBy (.notify ps pid key) := by
  cases hfound : c.noticed ps pid key with
  | error e =>
    -- the call raises in the lookup
    obtain ⟨processors, hcall⟩ := notify_of_error drainList hfound
    refine iff_of_true (Quiet.drainSafe rfl ?_) ?_
    · rw [hcall]
      exact quiet_of_processors c processors
    · rw [DrainedBy, hfound]
      intro _ found hmem
      cases hmem
  | ok found =>
    obtain ⟨processors, h', hdone, hcall⟩ := h.notify_of_ok drainList hfound
    by_cases hpend : c.pendingTermination
    · rw [h'.goOn_of_pending hlist hpend] at hcall
      have hsafe : DrainSafe drainList c (.notify ps pid key) ↔ _ :=
        drainSafe_iff_of_completed _ (congrArg (some ∘ stateOf) hcall) rfl (List.append_nil _).symm
      rw [hsafe, hdone, DrainedBy, hfound]
      constructor
      · intro hbut _ found' hmem
        obtain rfl := Option.some.inj hmem
        exact hbut
      · intro hguard
        exact hguard hpend found rfl
    · rw [goOn_of_not_pending (c := { c with processors := processors }) hpend] at hcall
      refine iff_of_true (Quiet.drainSafe (congrArg (some ∘ stateOf) hcall) ?_) ?_
      · exact quiet_of_processors c processors
      · intro hpend'
        exact absurd hpend' hpend

/-- Each step of an idle pipe is safe exactly under the condition. -/
theorem Idle.drainSafe_iff {c : PipeController} (h : Idle pipe c)
    (hlist : ∀ proc ∈ drainList pipe, proc.id ∈ pipe.processors.keys) (e : PipeEvent) :
    DrainSafe drainList c e ↔ c.DrainedBy e := by
  cases e with
  | start launched => exact iff_of_true (Quiet.drainSafe rfl (quiet_start c launched)) trivial
  | register ps pid =>
    exact iff_of_true (Quiet.drainSafe rfl (quiet_registerLaunchedInstance c ps pid)) trivial
  | launch key _ _ | connection key _ _ | exit key _ _ _ =>
    have hc : Quiet c c := quiet_of_processors c c.processors
    exact iff_of_true (Quiet.drainSafe rfl (quiet_onProcessor c key _ c hc)) trivial
  | request =>
    refine drainSafe_iff_of_completed (schedule .pendingTermination c) ?_ rfl rfl
    rw [pipeStep, h.requestTermination_eq hlist]
    rfl
  | notify ps pid key => exact h.drainSafe_notify_iff hlist ps pid key
  | runTask => exact iff_of_true (drainSafe_runTask c) trivial

/-- From the loaded pipe a run drains safely exactly when the request and every notice that follows it
come when nothing else is left to drain. -/
theorem draining_safe_iff (hdag : pipe.IsDag) (horder : pipe.DrainOrder (drainList pipe))
    (events : List PipeEvent) :
    Along (pipeStep drainList) (DrainSafe drainList) (load pipe) events
      ↔ Along (pipeStep drainList) DrainedBy (load pipe) events := by
  have hlist : ∀ proc ∈ drainList pipe, proc.id ∈ pipe.processors.keys :=
    fun proc hproc => APIPipe.DrainOrder.ids_mem hdag horder hproc
  refine Along.iff_of_invariant (Idle pipe) ?_ ?_ (idle_load pipe)
  · exact fun c e c' h hstep => h.step hlist hstep
  · exact fun c e h => h.drainSafe_iff hlist e

/-- One instance is launched, registers, gets its work done and exits before the request. -/
theorem draining_safe_after_exit :
    Along (pipeStep fun _ => [APIPipe.childProcessor]) (DrainSafe fun _ => [APIPipe.childProcessor])
      (load APIPipe.oneChild)
      [.start (fun _ => (7, "")), .register (fun _ => .ok []) 7, .runTask, .exit "a" 0 0 [], .request,
        .runTask, .notify (fun _ => .ok []) 7 "a", .runTask] :=
  (draining_safe_iff APIPipe.oneChild_isDag APIPipe.oneChild_drainOrder _).mpr (by decide +kernel)

/-- With an instance that has registered and works, the request completes the pipe at once. -/
theorem request_completes_live_pipe :
    APIPipe.oneChild.IsDag ∧ APIPipe.oneChild.DrainOrder [APIPipe.childProcessor]
      ∧ ∃ c, runFrom (pipeStep fun _ => [APIPipe.childProcessor]) (load APIPipe.oneChild)
          [.start (fun _ => (7, "")), .register (fun _ => .ok []) 7, .runTask] = some c
        ∧ ¬ DrainSafe (fun _ => [APIPipe.childProcessor]) c .request := by
  refine ⟨APIPipe.oneChild_isDag, APIPipe.oneChild_drainOrder, _, rfl, ?_⟩
  intro h
  exact absurd (h.complete_done _ rfl (by decide +kernel)) (by decide +kernel)

/-- In no run is a processor ever asked to stop. -/
theorem requested_eq_nil (hdag : pipe.IsDag) (horder : pipe.DrainOrder (drainList pipe))
    {events : List PipeEvent} {c : PipeController}
    (hrun : runFrom (pipeStep drainList) (load pipe) events = some c) : c.requested = [] := by
  have hlist : ∀ proc ∈ drainList pipe, proc.id ∈ pipe.processors.keys :=
    fun proc hproc => APIPipe.DrainOrder.ids_mem hdag horder hproc
  exact (runFrom_invariant (fun c e c' h hstep => h.step hlist hstep) (idle_load pipe)
    hrun).unrequested

end PipeController

end Upipe
