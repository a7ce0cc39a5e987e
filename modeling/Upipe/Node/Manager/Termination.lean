import Mathlib.Data.List.Forall2
import Upipe.Node.Manager.Draining

/-!
# Requests to terminate

`ProcessorController.request_termination` goes through the instances. Each first changes its state and then uses its
connection, which is `None` before the worker has connected and again after it was lost. `send_json` of the
connection is an `async def`: a call makes a coroutine, of which nothing runs before it is awaited, and
`WebsocketHandler.send` awaits it. `request_termination` does not.
-/

namespace Upipe

open Upipe.Common

/-! ## Instances with their sockets -/

/-- The message that asks a worker to terminate, a `UPipeMessage` of type REQUEST_TERMINATION for a
PROCESSOR_INSTANCE. -/
structure TerminationRequest where
  dest : String
  sender : String
deriving DecidableEq

/-- An instance, and what has been sent over its connection. -/
structure WiredInstance where
  worker : WorkerController
  sent : List TerminationRequest
deriving DecidableEq

/-- What a call of an `async def` returns. -/
structure Coroutine (σ α : Type) where
  body : PyM σ α

/-- `await`. -/
def Coroutine.await {σ α : Type} (coroutine : Coroutine σ α) : PyM σ α := coroutine.body

namespace WiredInstance

/-- `self.connection.send_json(msg)`. -/
def sendJson (msg : TerminationRequest) : PyM WiredInstance (Coroutine WiredInstance Unit) := do
  let i ← get
  if i.worker.connected then pure ⟨modify fun i => { i with sent := i.sent ++ [msg] }⟩
  else throw ⟨.attributeError, "'NoneType' object has no attribute 'send_json'"⟩

/-- `term_req_msg`. -/
def termReqMsg (i : WiredInstance) : TerminationRequest := { dest := i.worker.procId, sender := i.worker.procId }

/-- `self.state = InstanceState.PENDING_TERMINATION`. -/
def asked (i : WiredInstance) : WiredInstance := { i with worker := { i.worker with state := .pendingTermination } }

/-- `request_termination`. -/
def requestTermination : PyM WiredInstance Unit := do
  modify asked
  let i ← get
  let _ ← sendJson i.termReqMsg

end WiredInstance

/-- A processor whose instances have their sockets. -/
structure WiredProcessor where
  proc : APIProcessor
  instances : List WiredInstance
  status : ProcessorExecutionStatus
deriving DecidableEq

namespace WiredProcessor

/-- The loop of `request_termination`. -/
def requestAll : List WiredInstance → EStateM.Result PyError (List WiredInstance) Unit
  | [] => .ok () []
  | i :: instances =>
      match WiredInstance.requestTermination i with
      | .ok _ i' => mapState (i' :: ·) (requestAll instances)
      | .error e i' => .error e (i' :: instances)

/-- `request_termination`. -/
def requestTermination : PyM WiredProcessor Unit := fun p =>
  match requestAll p.instances with
  | .ok _ instances => .ok () { p with instances := instances, status := .pendingTermination }
  | .error e instances => .error e { p with instances := instances }

/-- The controller without the sockets. -/
def controller (p : WiredProcessor) : ProcessorController where
  proc := p.proc
  instances := p.instances.map WiredInstance.worker
  status := p.status

/-- The call returns with the processor PENDING_TERMINATION and every instance as `R` says, or it raises and has
changed no state and no status. -/
def Settles (R : WiredInstance → WiredInstance → Prop) (p : WiredProcessor) : Prop :=
  (∃ p', requestTermination p = .ok () p' ∧ p'.status = .pendingTermination ∧
    List.Forall₂ R p.instances p'.instances) ∨
  ∃ e p', requestTermination p = .error e p' ∧ p'.status = p.status ∧
    p'.instances.map (fun i => i.worker.state) = p.instances.map fun i => i.worker.state

/-- A DONE instance stays DONE, any other is PENDING_TERMINATION. -/
def Pends (i i' : WiredInstance) : Prop :=
  i'.worker.state = if i.worker.isDone then .done else .pendingTermination

/-- The message has gone out to every instance that is not DONE. -/
def Notified (i i' : WiredInstance) : Prop :=
  i'.sent = if i.worker.isDone then i.sent else i.sent ++ [i.termReqMsg]

/-- `request_termination` is all or nothing. -/
def AllOrNothing (p : WiredProcessor) : Prop := p.Settles fun i i' => Pends i i' ∧ Notified i i'

/-- The loop comes to an instance without a connection, and all up to that one are PENDING_TERMINATION already. -/
def RefusedEarly (p : WiredProcessor) : Prop :=
  ∃ before i after, p.instances = before ++ i :: after ∧
    (∀ j ∈ before, j.worker.connected ∧ j.worker.state = .pendingTermination) ∧
    ¬ i.worker.connected ∧ i.worker.state = .pendingTermination

/-! ## What the loop does -/

section Loop

variable {i : WiredInstance} {instances before after : List WiredInstance} {p : WiredProcessor}

/-- A message goes out once its coroutine is awaited. -/
theorem sendJson_await (h : i.worker.connected) (msg : TerminationRequest) :
    (WiredInstance.sendJson msg >>= Coroutine.await) i = .ok () { i with sent := i.sent ++ [msg] } := by
  rw [WiredInstance.sendJson]
  simp only [bind_assoc, get_bind_apply, if_pos h]
  rfl

/-- A connected instance changes its state, and nothing is sent. -/
theorem requestTermination_ok (h : i.worker.connected) : WiredInstance.requestTermination i = .ok () i.asked := by
  have hconnected : i.asked.worker.connected = true := h
  rw [WiredInstance.requestTermination, modify_bind_apply, get_bind_apply, WiredInstance.sendJson]
  simp only [bind_assoc, get_bind_apply, if_pos hconnected]
  rfl

/-- An instance without a connection changes its state before it raises. -/
theorem requestTermination_error (h : ¬ i.worker.connected) :
    WiredInstance.requestTermination i
      = .error ⟨.attributeError, "'NoneType' object has no attribute 'send_json'"⟩ i.asked := by
  have hconnected : ¬ i.asked.worker.connected = true := h
  rw [WiredInstance.requestTermination, modify_bind_apply, get_bind_apply, WiredInstance.sendJson]
  simp only [bind_assoc, get_bind_apply, if_neg hconnected]
  rfl

theorem requestAll_ok (h : ∀ i ∈ instances, i.worker.connected) :
    requestAll instances = .ok () (instances.map WiredInstance.asked) := by
  induction instances with
  | nil => rfl
  | cons i instances ih =>
    rw [List.forall_mem_cons] at h
    rw [requestAll, requestTermination_ok h.1, ih h.2]
    rfl

theorem requestAll_error (hbefore : ∀ j ∈ before, j.worker.connected) (hi : ¬ i.worker.connected) :
    requestAll (before ++ i :: after)
      = .error ⟨.attributeError, "'NoneType' object has no attribute 'send_json'"⟩
          (before.map WiredInstance.asked ++ i.asked :: after) := by
  induction before with
  | nil =>
    rw [List.nil_append, requestAll, requestTermination_error hi]
    rfl
  | cons j before ih =>
    rw [List.forall_mem_cons] at hbefore
    rw [List.cons_append, requestAll, requestTermination_ok hbefore.1, ih hbefore.2]
    rfl

/-- All instances are connected, or there is a first one that is not. -/
theorem connected_or_split (instances : List WiredInstance) :
    (∀ i ∈ instances, i.worker.connected) ∨ ∃ before i after, instances = before ++ i :: after ∧
      (∀ j ∈ before, j.worker.connected) ∧ ¬ i.worker.connected := by
  induction instances with
  | nil => exact Or.inl fun _ hi => absurd hi List.not_mem_nil
  | cons j instances ih =>
    by_cases hj : j.worker.connected
    · rcases ih with hall | ⟨before, i, after, rfl, hbefore, hi⟩
      · exact Or.inl (List.forall_mem_cons.mpr ⟨hj, hall⟩)
      · exact Or.inr ⟨j :: before, i, after, rfl, List.forall_mem_cons.mpr ⟨hj, hbefore⟩, hi⟩
    · exact Or.inr ⟨[], j, instances, rfl, fun _ hi => absurd hi List.not_mem_nil, hj⟩

theorem requestTermination_eq_ok (h : ∀ i ∈ p.instances, i.worker.connected) :
    requestTermination p
      = .ok () { p with instances := p.instances.map WiredInstance.asked, status := .pendingTermination } := by
  rw [requestTermination, requestAll_ok h]

theorem requestTermination_eq_error (hp : p.instances = before ++ i :: after)
    (hbefore : ∀ j ∈ before, j.worker.connected) (hi : ¬ i.worker.connected) :
    requestTermination p
      = .error ⟨.attributeError, "'NoneType' object has no attribute 'send_json'"⟩
          { p with instances := before.map WiredInstance.asked ++ i.asked :: after } := by
  rw [requestTermination, hp, requestAll_error hbefore hi]

/-- Without the sockets it is the call that a pipe makes. -/
theorem controller_requestTermination (p : WiredProcessor) :
    answerOf (ProcessorController.requestTermination p.controller) = answerOf (requestTermination p) ∧
      stateOf (ProcessorController.requestTermination p.controller) = (stateOf (requestTermination p)).controller := by
  have hloop : ∀ instances : List WiredInstance,
      ProcessorController.requestAll (instances.map WiredInstance.worker)
        = match requestAll instances with
          | .ok _ instances' => .ok () (instances'.map WiredInstance.worker)
          | .error e instances' => .error e (instances'.map WiredInstance.worker) := by
    intro instances
    induction instances with
    | nil => rfl
    | cons i instances ih =>
      rw [List.map_cons, ProcessorController.requestAll, requestAll]
      by_cases hi : i.worker.connected
      · rw [WorkerController.requestTermination_ok hi, requestTermination_ok hi, ih]
        cases requestAll instances with
        | ok a rest => rfl
        | error e rest => rfl
      · rw [WorkerController.requestTermination_error hi, requestTermination_error hi]
        rfl
  rw [ProcessorController.requestTermination, requestTermination,
    show p.controller.instances = p.instances.map WiredInstance.worker from rfl, hloop]
  cases requestAll p.instances with
  | ok a instances => exact ⟨rfl, rfl⟩
  | error e instances => exact ⟨rfl, rfl⟩

end Loop

/-! ## When it is all or nothing -/

section Outcome

variable {R : WiredInstance → WiredInstance → Prop} {p : WiredProcessor}

/-- A call that raises has changed nothing exactly when the first instances were PENDING_TERMINATION, up to the one
without a connection. -/
theorem states_asked_iff {before after : List WiredInstance} {i : WiredInstance} :
    (before.map WiredInstance.asked ++ i.asked :: after).map (fun j => j.worker.state)
        = (before ++ i :: after).map (fun j => j.worker.state) ↔
      (∀ j ∈ before, j.worker.state = .pendingTermination) ∧ i.worker.state = .pendingTermination := by
  induction before with
  | nil =>
    rw [List.map_nil, List.nil_append, List.nil_append, List.map_cons, List.map_cons, List.cons.injEq]
    constructor
    · exact fun h => ⟨fun _ hj => absurd hj List.not_mem_nil, h.1.symm⟩
    · exact fun h => ⟨h.2.symm, rfl⟩
  | cons j before ih =>
    rw [List.map_cons, List.cons_append, List.cons_append, List.map_cons, List.map_cons, List.cons.injEq, ih,
      List.forall_mem_cons, and_assoc]
    exact and_congr_left fun _ => eq_comm

/-- How the call settles what it does to each instance. -/
theorem settles_iff : p.Settles R ↔
    (∀ i ∈ p.instances, i.worker.connected ∧ R i i.asked) ∨ p.RefusedEarly := by
  rcases connected_or_split p.instances with hall | ⟨before, i, after, hp, hbefore, hi⟩
  -- every worker is connected, so the loop comes to its end and all are asked
  · have hcall := requestTermination_eq_ok hall
    constructor
    · rintro (⟨p', hcall', -, hR⟩ | ⟨e, p', hcall', -⟩)
      · rw [hcall] at hcall'
        obtain ⟨-, rfl⟩ := EStateM.Result.ok.inj hcall'
        refine Or.inl fun i hi => ⟨hall i hi, ?_⟩
        exact List.forall₂_same.mp (List.forall₂_map_right_iff.mp hR) i hi
      · rw [hcall] at hcall'
        cases hcall'
    · rintro (h | ⟨before, i, after, hp, -, hi, -⟩)
      · refine Or.inl ⟨_, hcall, rfl, List.forall₂_map_right_iff.mpr ?_⟩
        exact List.forall₂_same.mpr fun i hi => (h i hi).2
      · exact absurd (hall i (by rw [hp]; exact List.mem_append_right _ List.mem_cons_self)) hi
  -- the first worker that is not connected ends the loop: those behind it are never asked
  · have hcall := requestTermination_eq_error hp hbefore hi
    constructor
    · rintro (⟨p', hcall', -⟩ | ⟨e, p', hcall', -, hstates⟩)
      · rw [hcall] at hcall'
        cases hcall'
      · rw [hcall] at hcall'
        obtain ⟨-, rfl⟩ := EStateM.Result.error.inj hcall'
        rw [hp] at hstates
        obtain ⟨hpending, hipending⟩ := states_asked_iff.mp hstates
        exact Or.inr ⟨before, i, after, hp, fun j hj => ⟨hbefore j hj, hpending j hj⟩, hi, hipending⟩
    · rintro (h | ⟨before', i', after', hp', hbefore', hi', hipending⟩)
      · exact absurd (h i (by rw [hp]; exact List.mem_append_right _ List.mem_cons_self)).1 hi
      · have hcall' := requestTermination_eq_error hp' (fun j hj => (hbefore' j hj).1) hi'
        refine Or.inr ⟨_, _, hcall', rfl, ?_⟩
        rw [hp']
        exact states_asked_iff.mpr ⟨fun j hj => (hbefore' j hj).2, hipending⟩

/-- The states alone are settled when all instances are connected and none is DONE, or the call raises at once. -/
theorem settles_pends_iff : p.Settles Pends ↔
    (∀ i ∈ p.instances, i.worker.connected ∧ ¬ i.worker.isDone) ∨ p.RefusedEarly := by
  have hpends : ∀ i : WiredInstance, Pends i i.asked ↔ ¬ i.worker.isDone := by
    intro i
    by_cases hdone : i.worker.isDone
    · rw [Pends, if_pos hdone]
      exact iff_of_false (by intro h; cases h) (not_not.mpr hdone)
    · rw [Pends, if_neg hdone]
      exact iff_of_true rfl hdone
  rw [settles_iff]
  simp only [hpends]

/-- A termination is all or nothing only where there is nothing to do: there is no instance, or the call raises
before it has changed anything. No message ever goes out. -/
theorem allOrNothing_iff : p.AllOrNothing ↔ p.instances = [] ∨ p.RefusedEarly := by
  have hnever : ∀ i : WiredInstance, ¬ (Pends i i.asked ∧ Notified i i.asked) := by
    rintro i ⟨hpends, hnotified⟩
    by_cases hdone : i.worker.isDone
    · rw [Pends, if_pos hdone] at hpends
      cases hpends
    · rw [Notified, if_neg hdone] at hnotified
      have hlength := congrArg List.length hnotified
      rw [List.length_append] at hlength
      exact absurd hlength (Nat.ne_of_lt (Nat.lt_succ_self _))
  rw [AllOrNothing, settles_iff]
  refine or_congr_left ?_
  constructor
  · intro h
    rw [List.eq_nil_iff_forall_not_mem]
    exact fun i hi => hnever i (h i hi).2
  · intro h i hi
    rw [h] at hi
    cases hi

end Outcome

/-! ## Three instances -/

/-- An instance of a processor, in a state. -/
def sampleInstance (pid : ℕ) (state : InstanceState) (connected : Bool) : WiredInstance where
  worker := { WorkerController.launched APIPipe.childProcessor pid "" (.subProcess []) with
    state := state, connected := connected }
  sent := []

/-- One worker is connected, one has finished with an error, one has not connected yet. -/
def mixedInstances : WiredProcessor where
  proc := APIPipe.childProcessor
  instances := [sampleInstance 7 .ready true, sampleInstance 8 .done true, sampleInstance 9 .launched false]
  status := .init

/-- The call raises; all three are PENDING_TERMINATION, the DONE one included, the processor is not, and no message
went out. -/
theorem mixedInstances_half_terminated :
    ¬ mixedInstances.AllOrNothing ∧
      raisedIn (requestTermination mixedInstances) =
        some { mixedInstances with instances := mixedInstances.instances.map WiredInstance.asked } := by
  refine ⟨?_, by decide⟩
  rw [AllOrNothing, settles_iff]
  rintro (h | ⟨before, i, after, hp, hbefore, hi, hpending⟩)
  · have hall : ∀ i ∈ mixedInstances.instances, i.worker.connected := fun i hi => (h i hi).1
    exact absurd hall (by decide)
  · have hmem : i ∈ mixedInstances.instances := by
      rw [hp]
      exact List.mem_append_right _ List.mem_cons_self
    have hnone : ∀ j ∈ mixedInstances.instances, j.worker.state ≠ .pendingTermination := by decide
    exact hnone i hmem hpending

end WiredProcessor

end Upipe
