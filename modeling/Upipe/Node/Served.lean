import Upipe.Node.Client

/-!
# What the node serves

`Served` are the nodes that its server comes to: by requests, by control messages and the other events of the node,
and by workers that connect. `request_termination` of a pipe has no caller among these, since
`process_control_message` passes over TERMINATE. So no pipe is ever drained (`Served.never_drained`): nothing waits
for termination and no worker is asked to stop. A pipe is READY, RUNNING, PAUSED or COMPLETED, and can be started. A
notice of termination can then always be sent again.
-/

namespace Upipe

open Upipe.Common

namespace ComputeNode

/-- The loop of `process_message` for a message of the scope PROCESSOR, which every pipe gets. -/
def processLoop (action : PipeActionType) (launched : String → String → ℕ × String) :
    List String → PyM ComputeNode Unit
  | [] => pure ()
  | name :: names => do
      onPipe name (PipeController.processControlMessage (launched name) action)
      processLoop action launched names

/-- `process_message`, for a control message of the scope PROCESSOR. An exception is printed and dropped. -/
def processForAll (action : PipeActionType) (launched : String → String → ℕ × String) (node : ComputeNode) :
    ComputeNode :=
  stateOf (processLoop action launched node.pipeControllers.keys node)

end ComputeNode

/-- The nodes that the server comes to. -/
inductive ComputeNode.Served : ComputeNode → Prop where
  | empty : Served ⟨.empty⟩
  | request {s : LoadingNode} (host : Host) (request : Request) (h : Served s.node) :
      Served (stateOf (LoadingNode.endpoint host request s)).node
  | connection {node : ComputeNode} (name key : String) (n : ℕ) (isOpen : Bool) (h : Served node) :
      Served (stateOf (ComputeNode.onPipe name (PipeController.onProcessor key (ProcessorController.onInstance n
        (modify fun i => { i with connected := isOpen }))) node))
  | message {node : ComputeNode} (action : PipeActionType) (launched : String → String → ℕ × String)
      (h : Served node) : Served (node.processForAll action launched)
  | node {s s' : ScalingNode} {e : ScalingNode.NodeEvent} (h : Served s.node)
      (hstep : ScalingNode.nodeStep s e = some s') : Served s'.node

/-! ## One worker -/

namespace WorkerController

/-- The worker has been launched, has registered or is done: nobody has asked it to stop. -/
def Unasked (i : WorkerController) : Prop := i.state ∈ [InstanceState.launched, .ready, .done]

theorem unasked_register (ps : ℕ → Except PyError (List ℕ)) (pid : ℕ) : Keeps Unasked (register ps pid) := by
  refine Keeps.bind (keeps_modify fun i _ => ?_) fun _ => ?_
  · show InstanceState.ready ∈ _
    decide
  · refine keeps_get_bind fun i hi => ?_
    split
    · exact hi
    · refine Keeps.bind (keeps_ofExcept _) (fun isChild => ?_) i hi
      split
      · exact keeps_pure _
      · exact keeps_throw _

theorem unasked_handleExit (lines : List Bytes) (i : WorkerController) : (i.handleExit lines).Unasked := by
  have hdone : (i.handleExit lines).state = .done := by
    rw [handleExit]
    cases i.stdoutQ with
    | process _ => rfl
    | subProcess _ => rfl
  rw [Unasked, hdone]
  decide

theorem unasked_exited (code : ℤ) (lines : List Bytes) : Keeps Unasked (PipeController.exited code lines) := by
  refine keeps_modify fun i hi => ?_
  split
  · exact unasked_handleExit ..
  · exact hi

theorem unasked_wrote (text : String) (line : Bytes) : Keeps Unasked (ScalingNode.wrote text line) := by
  refine keeps_modify fun i hi => ?_
  split
  · exact hi
  · exact hi

theorem unasked_readStdoutLine : Keeps Unasked readStdoutLine := by
  refine keeps_get_bind fun i hi => ?_
  rcases hq : i.stdoutQ with (- | ⟨chunk, rest⟩) | (- | ⟨line, rest⟩)
  · exact hi
  · exact hi
  · exact hi
  · have hnext : Keeps Unasked (if line = [] then pure none else do
        let text ← ofExcept (decodeUtf8 line)
        pure (i.lineOf (strip text)) : PyM WorkerController (Option String)) := by
      split
      · exact keeps_pure _
      · exact Keeps.bind (keeps_ofExcept _) fun _ => keeps_pure _
    exact hnext { i with stdoutQ := .subProcess rest } hi

theorem unasked_readLines (n : ℕ) : Keeps Unasked (readLines n) := by
  induction n with
  | zero => exact keeps_pure _
  | succ n ih =>
    refine Keeps.bind unasked_readStdoutLine fun line => ?_
    cases line with
    | none => exact keeps_pure _
    | some line => exact ih

end WorkerController

/-! ## One processor -/

namespace ProcessorController

/-- No worker of the processor has been asked to stop, and neither has the processor. -/
structure Unasked (p : ProcessorController) : Prop where
  status : p.status ∈ [ProcessorExecutionStatus.init, .completed]
  instances : ∀ i ∈ p.instances, i.Unasked

variable {p : ProcessorController}

theorem unasked_onInstance {n : ℕ} {m : PyM WorkerController Unit} (hm : Keeps WorkerController.Unasked m) :
    Keeps Unasked (onInstance n m) := by
  intro p hp
  rw [onInstance]
  cases hn : p.instances[n]? with
  | none => exact hp
  | some i =>
    have hi := hm i (hp.instances i (List.mem_of_getElem? hn))
    cases hcall : m i with
    | ok _ i' | error _ i' =>
      rw [hcall] at hi
      simp only [hcall]
      refine ⟨hp.status, fun j hj => ?_⟩
      rcases List.mem_or_eq_of_mem_set hj with hj | rfl
      · exact hp.instances j hj
      · exact hi

theorem Unasked.withLaunched (h : p.Unasked) (pid : ℕ) (colour : String) : (p.withLaunched pid colour).Unasked := by
  refine ⟨h.status, fun i hi => ?_⟩
  rcases List.mem_append.mp hi with hi | hi
  · exact h.instances i hi
  · rw [List.mem_singleton.mp hi]
    show InstanceState.launched ∈ _
    decide

theorem Unasked.remove (h : p.Unasked) (n : ℕ) : Unasked { p with instances := p.instances.eraseIdx n } :=
  ⟨h.status, fun i hi => h.instances i (List.mem_of_mem_eraseIdx hi)⟩

theorem Unasked.complete (h : p.Unasked) (withErrors : Bool) : (p.onComplete withErrors).Unasked :=
  ⟨List.mem_of_elem_eq_true rfl, h.instances⟩

/-- A notice marks a worker DONE. A processor that has not been asked does not become COMPLETED by it. -/
theorem unasked_notifyTermination (ps : ℕ → Except PyError (List ℕ)) (pid : ℕ) :
    Keeps Unasked (notifyTermination ps pid) := by
  intro p hp
  cases h : findByPid ps pid p.instances with
  | error e =>
    rw [notifyTermination_error h]
    exact hp
  | ok found =>
    obtain ⟨last, hcall⟩ := notifyTermination_eq h
    rw [hcall]
    refine ⟨?_, fun i hi => ?_⟩
    · rw [stateOf_ok, noticed]
      dsimp only
      split
      · exact List.mem_of_elem_eq_true rfl
      · exact hp.status
    · rw [stateOf_ok, instances_noticed] at hi
      rcases mem_markDone hi with hi | hi
      · exact hp.instances i hi
      · rw [WorkerController.Unasked, hi]
        decide

end ProcessorController

/-! ## One pipe -/

namespace PipeController

/-- The pipe has never been drained, and it is not about to be. -/
structure Undrained (c : PipeController) : Prop where
  status : c.status ∈ [PipeExecutionStatus.ready, .running, .paused, .completed]
  tasks : ∀ status ∈ c.tasks, status ∈ [PipeExecutionStatus.running, .paused, .completed]
  requested : c.requested = []
  processors : c.Every fun _ p => p.Unasked

variable {c : PipeController}

theorem undrained_load (pipe : APIPipe) : (load pipe).Undrained where
  status := List.mem_of_elem_eq_true rfl
  tasks _ hstatus := nomatch hstatus
  requested := rfl
  processors item hitem := by
    obtain ⟨_, -, rfl⟩ := List.mem_map.mp hitem
    exact ⟨List.mem_of_elem_eq_true rfl, fun i hi => nomatch hi⟩

theorem Undrained.withProcessor (h : c.Undrained) {key : String} {p : ProcessorController} (hp : p.Unasked) :
    (c.withProcessor key p).Undrained where
  status := h.status
  tasks := h.tasks
  requested := h.requested
  processors := h.processors.withProcessor hp

theorem Undrained.schedule (h : c.Undrained) {status : PipeExecutionStatus}
    (hstatus : status ∈ [PipeExecutionStatus.running, .paused, .completed]) : (c.schedule status).Undrained where
  status := h.status
  tasks := List.forall_mem_append.mpr ⟨h.tasks, List.forall_mem_singleton.mpr hstatus⟩
  requested := h.requested
  processors := h.processors

theorem undrained_onProcessor {α : Type} {key : String} {m : PyM ProcessorController α}
    (hm : Keeps ProcessorController.Unasked m) : Keeps Undrained (onProcessor key m) := by
  intro c hc
  cases hp : c.processors.get? key with
  | none =>
    rw [stateOf_onProcessor_of_none hp]
    exact hc
  | some p =>
    rw [stateOf_onProcessor hp]
    exact hc.withProcessor (hm p (hc.processors.get hp))

theorem undrained_start (launched : String → ℕ × String) : Keeps Undrained (start launched) := by
  have hall : ∀ keys, Keeps Undrained (launchAll launched keys) := by
    intro keys
    induction keys with
    | nil => exact keeps_pure ()
    | cons key keys ih =>
      refine Keeps.bind (undrained_onProcessor (keeps_get_bind fun p hp => ?_)) fun _ => ih
      split
      · by_cases hgiven : ProcessorController.isGiven p.proc.entry
        · rw [ProcessorController.launchInstance_ok hgiven]
          exact hp.withLaunched ..
        · rw [ProcessorController.launchInstance_error hgiven]
          exact hp
      · exact hp
  have hscheduled : Keeps Undrained (modify (schedule .running) : PyM PipeController Unit) :=
    keeps_modify fun _ hc => hc.schedule (List.mem_of_elem_eq_true rfl)
  refine keeps_get_bind fun c hc => ?_
  split
  · exact hc
  · exact Keeps.bind (hall _) (fun _ => hscheduled) c hc

theorem undrained_pause : Keeps Undrained pause := by
  refine keeps_get_bind fun c hc => ?_
  split
  · exact hc
  · exact hc.schedule (List.mem_of_elem_eq_true rfl)

/-- A control message starts the pipe or pauses it. It passes over RESTART and TERMINATE. -/
theorem undrained_processControlMessage (launched : String → ℕ × String) (action : PipeActionType) :
    Keeps Undrained (processControlMessage launched action) := by
  cases action with
  | start => exact undrained_start launched
  | pause => exact undrained_pause
  | restart | terminate => exact keeps_pure _

/-- A pipe that is not to be drained only takes notice. -/
theorem undrained_notifyTermination (drainList : APIPipe → List APIProcessor)
    (ps : ℕ → Except PyError (List ℕ)) (pid : ℕ) (key : String) :
    Keeps Undrained (notifyTermination drainList ps pid key) := by
  have hgoOn : Keeps Undrained (goOn drainList) := by
    refine keeps_get_bind fun c hc => ?_
    have hpending : ¬ c.pendingTermination = true := by
      rw [pendingTermination, decide_eq_true_eq]
      intro heq
      have hstatus := hc.status
      rw [heq] at hstatus
      revert hstatus
      decide
    rw [if_neg hpending]
    exact hc
  refine keeps_get_bind fun c hc => ?_
  split
  · have hmark := ProcessorController.unasked_notifyTermination ps pid
    exact Keeps.bind (undrained_onProcessor hmark) (fun _ => hgoOn) c hc
  · exact hgoOn c hc

theorem undrained_monitorPipe : Keeps Undrained monitorPipe := by
  have hcomplete : ∀ key withErrors, Keeps Undrained
      (onProcessor key (modify (ProcessorController.onComplete withErrors))) := fun _ withErrors =>
    undrained_onProcessor (keeps_modify fun _ hp => hp.complete withErrors)
  have hexit : ∀ key n i, Keeps Undrained (handleInstanceExit key n i) := by
    intro key n i
    unfold handleInstanceExit
    split
    · refine (hcomplete i.procId false).bind fun _ => undrained_onProcessor ?_
      split
      · exact keeps_modify fun _ hp => hp.remove n
      · exact keeps_throw _
    · exact hcomplete i.procId true
  have hloop : ∀ key fuel n running, Keeps Undrained (monitorLoop key fuel n running) := by
    intro key fuel
    induction fuel with
    | zero => exact fun _ _ => keeps_pure _
    | succ fuel ih =>
      intro n running
      refine keeps_get_bind fun c hc => Keeps.bind (keeps_ofExcept _) (fun p => ?_) c hc
      split
      · exact keeps_pure _
      · rename_i i _
        refine Keeps.bind (undrained_onProcessor (ProcessorController.unasked_onInstance
          (WorkerController.unasked_readLines _))) fun _ => ?_
        split
        · exact (hexit key n i).bind fun _ => ih _ _
        · exact ih _ _
  have hall : ∀ keys running, Keeps Undrained (monitorProcessors keys running) := by
    intro keys
    induction keys with
    | nil => exact fun _ => keeps_pure _
    | cons key keys ih =>
      intro running
      refine keeps_get_bind fun c hc => Keeps.bind (keeps_ofExcept _) (fun p => ?_) c hc
      exact (hloop key _ _ _).bind fun running => ih running
  exact keeps_get_bind fun c hc => hall _ _ c hc

theorem Undrained.runTask (h : c.Undrained) {c' : PipeController} (htask : c.runTask = some c') : c'.Undrained := by
  rw [PipeController.runTask] at htask
  cases htasks : c.tasks with
  | nil =>
    rw [htasks] at htask
    cases htask
  | cons status tasks =>
    rw [htasks] at htask
    cases htask
    obtain ⟨hstatus, htasks⟩ := List.forall_mem_cons.mp (htasks ▸ h.tasks)
    exact ⟨List.mem_cons_of_mem _ hstatus, htasks, h.requested, h.processors⟩

end PipeController

/-! ## The node -/

namespace ComputeNode

/-- No pipe of the node has ever been drained. -/
def Undrained (node : ComputeNode) : Prop := node.Every fun _ c => c.Undrained

theorem undrained_notify (host : Host) (pid : ℕ) (procId : String) :
    Keeps Undrained (notifyTermination host pid procId) := by
  have hnotice : Keeps PipeController.Undrained (PipeController.notice host pid procId) := by
    refine keeps_get_bind fun c hc => ?_
    split
    · exact PipeController.undrained_notifyTermination host.drainList host.ps pid procId c hc
    · exact hc
  have hloop : ∀ names, Keeps Undrained (notifyLoop host pid procId names) := by
    intro names
    induction names with
    | nil => exact keeps_pure _
    | cons name names ih => exact (keepsEvery_onPipe hnotice).bind fun _ => ih
  exact keeps_get_bind fun node hnode => hloop _ node hnode

/-- What is called on a worker leaves the node undrained. -/
theorem undrained_onInstance {m : PyM WorkerController Unit} (hm : Keeps WorkerController.Unasked m)
    (name key : String) (n : ℕ) :
    Keeps Undrained (onPipe name (PipeController.onProcessor key (ProcessorController.onInstance n m))) :=
  keepsEvery_onPipe (PipeController.undrained_onProcessor (ProcessorController.unasked_onInstance hm))

theorem undrained_registerLaunchedInstance (ps : ℕ → Except PyError (List ℕ)) (pid : ℕ) :
    Keeps Undrained (registerLaunchedInstance ps pid) := by
  apply keeps_registerLaunchedInstance
  intro r
  exact undrained_onInstance (WorkerController.unasked_register ps pid) r.pipe r.key r.n

theorem Undrained.noneRunning {node : ComputeNode} (h : node.Undrained) : node.NoneRunning := by
  intro item hitem entry hentry i hi
  have hunasked := ((h item hitem).processors entry hentry).instances i hi
  intro hrunning
  rw [WorkerController.Unasked, hrunning] at hunasked
  revert hunasked
  decide

/-- A control message to all pipes ends at the first that raises. -/
theorem undrained_processLoop (action : PipeActionType) (launched : String → String → ℕ × String)
    (names : List String) : Keeps Undrained (processLoop action launched names) := by
  induction names with
  | nil => exact keeps_pure _
  | cons name names ih =>
    exact (keepsEvery_onPipe (PipeController.undrained_processControlMessage (launched name) action)).bind fun _ => ih

end ComputeNode

namespace LoadingNode

/-- The answer of the endpoint says what has become of the load. -/
theorem stateOf_loadPipeEndpoint (host : Host) (pipe : APIPipe) (s : LoadingNode) :
    stateOf (loadPipeEndpoint host pipe s) = stateOf (loadPipe host.refuses pipe s) := by
  rw [loadPipeEndpoint]
  cases loadPipe host.refuses pipe s with
  | ok _ s' => rfl
  | error e s' =>
    dsimp only
    split
    · rfl
    · rfl

theorem undrained_endpoint (host : Host) (request : Request) :
    Keeps (fun s => s.node.Undrained) (endpoint host request) := by
  cases request with
  | loadPipe pipe =>
    intro s hs
    show (stateOf (loadPipeEndpoint host pipe s)).node.Undrained
    rw [stateOf_loadPipeEndpoint]
    rcases node_of_loadPipe host.refuses pipe s with hsame | hnew
    · rw [hsame]
      exact hs
    · rw [hnew]
      exact ComputeNode.Every.withPipe hs (PipeController.undrained_load pipe)
  | registerProc pid =>
    refine Keeps.bind (keeps_onNode (ComputeNode.undrained_registerLaunchedInstance host.ps pid)) fun r => ?_
    refine keeps_get_bind fun s hs => ?_
    cases s.node.instanceAt r with
    | none => exact hs
    | some i => exact Keeps.bind (P := fun s => s.node.Undrained) (keeps_ofExcept _) (fun _ => keeps_pure _) s hs
  | notifyTermination pid procId =>
    exact Keeps.bind (keeps_onNode (ComputeNode.undrained_notify host pid procId)) fun _ => keeps_pure _

end LoadingNode

namespace ScalingNode

theorem undrained_babySitterTurn (env : Surroundings) :
    Keeps (fun s => s.node.Undrained) (babySitterTurn env) := by
  have hloop : ∀ names, Keeps ComputeNode.Undrained (ComputeNode.babySitterLoop names) := by
    intro names
    apply ComputeNode.keeps_babySitterLoop
    · exact fun _ _ => ComputeNode.keepsEvery_onPipe PipeController.undrained_monitorPipe
    · exact fun _ _ => ComputeNode.keepsEvery_onPipe
        (keeps_modify fun _ hc => hc.schedule (List.mem_of_elem_eq_true rfl))
  have hscale : Keeps (fun s => s.node.Undrained) (checkAutoscale env) := by
    intro s hs
    rcases checkAutoscale_cases env s with hsame | ⟨name, c, key, p, hc, hp, -, -, hnode⟩
    · rw [hsame]
      exact hs
    · rw [hnode]
      have hundrained : c.Undrained := ComputeNode.Every.get hs hc
      exact ComputeNode.Every.withPipe hs
        (hundrained.withProcessor ((hundrained.processors.get hp).withLaunched env.pid env.colour))
  refine keeps_get_bind fun s hs => ?_
  split
  · exact hs
  · exact Keeps.bind (keeps_onNode (hloop _)) (fun _ => hscale) s hs

theorem undrained_step {s s' : ScalingNode} {e : NodeEvent} (h : s.node.Undrained) (hstep : nodeStep s e = some s') :
    s'.node.Undrained := by
  cases e with
  | control pipe action launched =>
    obtain rfl := Option.some.inj hstep
    exact ComputeNode.keepsEvery_onPipe (PipeController.undrained_processControlMessage launched action) s.node h
  | register ps pid =>
    obtain rfl := Option.some.inj hstep
    exact ComputeNode.undrained_registerLaunchedInstance ps pid s.node h
  | output pipe key n text line =>
    obtain rfl := Option.some.inj hstep
    exact ComputeNode.undrained_onInstance (WorkerController.unasked_wrote text line) pipe key n s.node h
  | exit pipe key n code lines =>
    obtain rfl := Option.some.inj hstep
    exact ComputeNode.undrained_onInstance (WorkerController.unasked_exited code lines) pipe key n s.node h
  | runTask pipe =>
    obtain ⟨c, hc, htask⟩ := Option.bind_eq_some_iff.mp hstep
    obtain ⟨c', hc', rfl⟩ := Option.map_eq_some_iff.mp htask
    have hundrained : c.Undrained := ComputeNode.Every.get h hc
    exact ComputeNode.Every.withPipe h (hundrained.runTask hc')
  | tick env =>
    rw [node_of_tick hstep]
    exact undrained_babySitterTurn env s h

end ScalingNode

/-! ## Whatever is served -/

namespace ComputeNode

theorem undrained_of_served {node : ComputeNode} (h : node.Served) : node.Undrained := by
  induction h with
  | empty => exact fun _ hitem => absurd hitem List.not_mem_nil
  | request host request _ ih => exact LoadingNode.undrained_endpoint host request _ ih
  | connection name key n isOpen _ ih =>
    have hconnected : Keeps WorkerController.Unasked
        (modify fun i => { i with connected := isOpen } : PyM WorkerController Unit) := keeps_modify fun _ hi => hi
    exact undrained_onInstance hconnected name key n _ ih
  | message action launched _ ih => exact undrained_processLoop action launched _ _ ih
  | node _ hstep ih => exact ScalingNode.undrained_step ih hstep

/-- No pipe that the server comes to is ever drained. It is READY, RUNNING, PAUSED or COMPLETED, none of its
processors waits for termination, and no worker has been asked to stop. -/
theorem Served.never_drained {node : ComputeNode} (h : node.Served) : node.Every fun _ c =>
    c.status ∈ [PipeExecutionStatus.ready, .running, .paused, .completed] ∧ c.requested = [] ∧
      c.Every fun _ p => p.status ∈ [ProcessorExecutionStatus.init, .completed] ∧
        ∀ i ∈ p.instances, i.state ∈ [InstanceState.launched, .ready, .done] := by
  intro item hitem
  have hundrained := undrained_of_served h item hitem
  refine ⟨hundrained.status, hundrained.requested, fun entry hentry => ?_⟩
  have hunasked := hundrained.processors entry hentry
  exact ⟨hunasked.status, hunasked.instances⟩

end ComputeNode

namespace LoadingNode

/-- A pipe that has been loaded and started. -/
theorem served_startedNode : startedNode.node.Served := by
  have hloaded : (stateOf (endpoint quietHost (.loadPipe APIPipe.oneChild) freshNode)).node.Served :=
    .request quietHost (.loadPipe APIPipe.oneChild) .empty
  exact .node (s := ⟨_, 0, true⟩) (e := .control "main" .start fun _ => (7, "")) hloaded rfl

theorem never_drained_startedNode : startedNode.node.Every fun _ c =>
    c.status ∈ [PipeExecutionStatus.ready, .running, .paused, .completed] ∧ c.requested = [] ∧
      c.Every fun _ p => p.status ∈ [ProcessorExecutionStatus.init, .completed] ∧
        ∀ i ∈ p.instances, i.state ∈ [InstanceState.launched, .ready, .done] :=
  ComputeNode.Served.never_drained served_startedNode

variable {host : Host} {pid : ℕ} {procId : String} {content : APIResponse} {s s₁ : LoadingNode} {lost : ℕ → Bool}

theorem noneBegins_of_undrained (h : s.node.Undrained) (procId : String) : NoneBegins procId s := by
  intro c hc _ hlast
  obtain ⟨item, hitem, rfl⟩ := List.mem_map.mp hc
  have hscheduled : PipeExecutionStatus.pendingTermination ∈ [PipeExecutionStatus.running, .paused, .completed] :=
    (h item hitem).tasks _ (List.mem_of_getLast? hlast)
  exact absurd hscheduled (by decide)

/-- A notice of termination may be sent again: as long as one of its answers arrives, the caller gets it, and the
node is as if the notice had been sent once. -/
theorem retried_notice (hserved : s.node.Served) (h : serve host (.notifyTermination pid procId) s = .ok content s₁)
    {j : ℕ} (hj : j < (Request.notifyTermination pid procId).times) (harrives : lost j = false) :
    retry (serve host (.notifyTermination pid procId)) lost (Request.notifyTermination pid procId).times s
      = .ok (content.data, content.messages) s₁ := by
  have hundrained := ComputeNode.undrained_of_served hserved
  obtain ⟨-, -, hcontent, -⟩ := serve_notifyTermination_ok h
  have hsuccess : content.success = true := by rw [hcontent]
  have hagain := serve_notifyTermination_again hundrained.noneRunning (noneBegins_of_undrained hundrained procId) h
  rw [retry, show (Request.notifyTermination pid procId).times = 2 + 1 from rfl, retryFrom_ok h hsuccess]
  split
  · rfl
  · rename_i hlost
    cases j with
    | zero => exact absurd harrives hlost
    | succ j =>
      refine retryFrom_repeats hagain hsuccess (Nat.lt_of_succ_lt_succ hj) ?_
      rwa [Nat.zero_add, Nat.add_comm]

/-- A notice of the started worker whose first two answers are lost. -/
theorem retried_notice_startedNode : ∃ content s₁,
    serve quietHost (.notifyTermination 7 "a") startedNode = .ok content s₁ ∧
      retry (serve quietHost (.notifyTermination 7 "a")) (fun i => i < 2) 3 startedNode
        = .ok (content.data, content.messages) s₁ := by
  have hrun : (returned (serve quietHost (.notifyTermination 7 "a") startedNode)).isSome = true := by
    decide +kernel
  obtain ⟨content, hcontent⟩ := Option.isSome_iff_exists.mp hrun
  obtain ⟨s₁, h⟩ := returned_eq_some_iff.mp hcontent
  exact ⟨content, s₁, h, retried_notice served_startedNode h (by decide : 2 < 3) rfl⟩

end LoadingNode

end Upipe
