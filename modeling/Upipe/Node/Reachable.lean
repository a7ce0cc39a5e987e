import Upipe.Node.Manager.Autoscale
import Upipe.Node.Server

/-!
# The states of the node server

`Reachable` are the nodes that the server comes to by its requests, by what happens to a loaded pipe and by
the events of the node. In none of them an instance is RUNNING: `register` stops at READY, and nothing goes
on from there.
-/

namespace Upipe

open Upipe.Common

/-- The nodes that the server comes to. -/
inductive ComputeNode.Reachable : ComputeNode → Prop where
  | empty : Reachable ⟨.empty⟩
  | request {s : LoadingNode} (host : Host) (request : Request) (h : Reachable s.node) :
      Reachable (stateOf (LoadingNode.endpoint host request s)).node
  | pipe {node : ComputeNode} {name : String} {c c' : PipeController} (drainList : APIPipe → List APIProcessor)
      (e : PipeController.PipeEvent) (h : Reachable node) (hget : node.pipeControllers.get? name = some c)
      (hstep : PipeController.pipeStep drainList c e = some c') : Reachable (node.withPipe name c')
  | node {s s' : ScalingNode} {e : ScalingNode.NodeEvent} (h : Reachable s.node)
      (hstep : ScalingNode.nodeStep s e = some s') : Reachable s'.node

/-! ## One processor -/

namespace WorkerController

theorem keeps_wrote (text : String) (line : Bytes) : Keeps NotRunning (ScalingNode.wrote text line) := by
  refine keeps_modify fun i hi => ?_
  split
  · exact hi
  · exact hi

theorem keeps_readStdoutLine : Keeps NotRunning readStdoutLine := by
  refine keeps_get_bind fun i hi => ?_
  rcases hq : i.stdoutQ with (- | ⟨chunk, rest⟩) | (- | ⟨line, rest⟩)
  · exact hi
  · exact hi
  · exact hi
  · have hnext : Keeps NotRunning (if line = [] then pure none else do
        let text ← ofExcept (decodeUtf8 line)
        pure (i.lineOf (strip text)) : PyM WorkerController (Option String)) := by
      split
      · exact keeps_pure _
      · exact Keeps.bind (keeps_ofExcept _) fun _ => keeps_pure _
    exact hnext { i with stdoutQ := .subProcess rest } hi

theorem keeps_readLines (n : ℕ) : Keeps NotRunning (readLines n) := by
  induction n with
  | zero => exact keeps_pure _
  | succ n ih =>
    refine Keeps.bind keeps_readStdoutLine fun line => ?_
    cases line with
    | none => exact keeps_pure _
    | some line => exact ih

end WorkerController

namespace ProcessorController

theorem lasting_idle : Lasting Idle where
  register _ ps pid := keeps_onInstance (WorkerController.keeps_register ps pid)
  exited _ code lines := keeps_onInstance (WorkerController.keeps_exited code lines)
  wrote _ text line := keeps_onInstance (WorkerController.keeps_wrote text line)
  read _ k := keeps_onInstance (WorkerController.keeps_readLines k)
  remove p n hp i hi := hp i ((List.eraseIdx_sublist p.instances n).mem hi)
  status _ _ hp := hp

theorem Idle.withLaunched {p : ProcessorController} (h : p.Idle) (pid : ℕ) (colour : String) :
    (p.withLaunched pid colour).Idle := by
  intro i hi
  rcases List.mem_append.mp hi with hi | hi
  · exact h i hi
  · rw [List.mem_singleton.mp hi]
    exact InstanceState.noConfusion

end ProcessorController

/-! ## One pipe -/

namespace PipeController

/-- No instance of the pipe is RUNNING. No method makes one RUNNING: `register` stops at READY. -/
def NoneRunning (c : PipeController) : Prop := c.Every fun _ p => p.Idle

variable {c c' : PipeController}

theorem NoneRunning.nextProcessor (h : c.NoneRunning) (order : List APIProcessor) :
    c.nextProcessor order = .ok none ∨ ∃ e, c.nextProcessor order = .error e := by
  induction order with
  | nil => exact Or.inl rfl
  | cons proc order ih =>
    rw [PipeController.nextProcessor, processor]
    cases hp : c.processors.get? proc.id with
    | none => exact Or.inr ⟨_, rfl⟩
    | some p =>
      have hnone : p.runningInstancesNum = 0 := by
        rw [ProcessorController.runningInstancesNum, (Every.get h hp).runningInstances_eq_nil, List.length_nil]
      show (if p.runningInstancesNum = 0 then c.nextProcessor order else _) = _ ∨
        ∃ e, (if p.runningInstancesNum = 0 then c.nextProcessor order else _) = _
      rw [if_pos hnone]
      exact ih

/-- With no instance RUNNING no processor is asked, and the pipe is completed. -/
theorem NoneRunning.terminateNextProcessor (h : c.NoneRunning) (drainList : APIPipe → List APIProcessor) :
    terminateNextProcessor drainList c = .ok () (schedule .completed c) ∨
      ∃ e, terminateNextProcessor drainList c = .error e c := by
  have hnone : c.runningProcessorsNum = 0 := by
    rw [runningProcessorsNum, List.length_eq_zero_iff, runningProcessors, List.filter_eq_nil_iff]
    intro p hp hpos
    obtain ⟨item, hitem, rfl⟩ := List.mem_map.mp hp
    rw [ProcessorController.runningInstancesNum, (h item hitem).runningInstances_eq_nil] at hpos
    exact absurd (of_decide_eq_true hpos) (Nat.lt_irrefl 0)
  rw [PipeController.terminateNextProcessor, get_bind_apply]
  rcases h.nextProcessor (drainList c.pipe) with hnext | ⟨e, hnext⟩
  · rw [hnext]
    left
    show (if c.runningProcessorsNum = 0 then modify (schedule .completed) else pure ()
      : PyM PipeController Unit) c = _
    rw [if_pos hnone]
    rfl
  · rw [hnext]
    exact Or.inr ⟨e, rfl⟩

theorem keeps_terminateNextProcessor (drainList : APIPipe → List APIProcessor) :
    Keeps NoneRunning (terminateNextProcessor drainList) := by
  intro c hc
  rcases hc.terminateNextProcessor drainList with hcall | ⟨e, hcall⟩
  · rw [hcall]
    exact hc
  · rw [hcall]
    exact hc

theorem keeps_notifyTermination_noneRunning (drainList : APIPipe → List APIProcessor)
    (ps : ℕ → Except PyError (List ℕ)) (pid : ℕ) (key : String) :
    Keeps NoneRunning (notifyTermination drainList ps pid key) := by
  have hgoOn : Keeps NoneRunning (goOn drainList) := by
    refine keeps_get_bind fun c hc => ?_
    split
    · exact keeps_terminateNextProcessor drainList c hc
    · exact hc
  refine keeps_get_bind fun c hc => ?_
  split
  · have hmark := ProcessorController.keeps_notifyTermination ps pid
    exact Keeps.bind (keepsEvery_onProcessor hmark) (fun _ => hgoOn) c hc
  · exact hgoOn c hc

theorem keeps_start_noneRunning (launched : String → ℕ × String) : Keeps NoneRunning (start launched) :=
  keepsEvery_start launched fun _ _ pid colour hp => hp.withLaunched pid colour

/-- What happens to a pipe makes no instance RUNNING. -/
theorem NoneRunning.step (h : c.NoneRunning) {drainList : APIPipe → List APIProcessor} {e : PipeEvent}
    (hstep : pipeStep drainList c e = some c') : c'.NoneRunning := by
  cases e with
  | start launched =>
    cases hstep
    exact keeps_start_noneRunning launched c h
  | launch key pid colour =>
    cases hstep
    exact keepsEvery_onProcessor (ProcessorController.keeps_launchInstance pid colour) c h
  | register ps pid =>
    cases hstep
    refine keeps_get_bind (fun c hc => Keeps.bind (keeps_ofExcept _) (fun found => ?_) c hc) c h
    rcases found with - | ⟨key, n⟩
    · exact keeps_throw _
    · refine keepsEvery_onProcessor (ProcessorController.keeps_onInstance (keeps_get_bind fun i hi => ?_))
      split
      · exact WorkerController.keeps_register ps pid i hi
      · exact hi
  | connection key n isOpen =>
    cases hstep
    refine keepsEvery_onProcessor (ProcessorController.keeps_onInstance ?_) c h
    exact keeps_modify fun _ hi => hi
  | request =>
    cases hstep
    exact keeps_terminateNextProcessor drainList (schedule .pendingTermination c) h
  | notify ps pid key =>
    cases hstep
    exact keeps_notifyTermination_noneRunning drainList ps pid key c h
  | exit key n code lines =>
    cases hstep
    exact keepsEvery_onProcessor (ProcessorController.keeps_onInstance
      (WorkerController.keeps_exited code lines)) c h
  | runTask =>
    rw [pipeStep, runTask] at hstep
    split at hstep
    · cases hstep
    · cases hstep
      exact h

end PipeController

/-! ## The node -/

namespace ComputeNode

/-- No instance of the node is RUNNING. -/
def NoneRunning (node : ComputeNode) : Prop := node.Every fun _ c => c.NoneRunning

theorem keeps_notifyTermination (host : Host) (pid : ℕ) (procId : String) :
    Keeps NoneRunning (notifyTermination host pid procId) := by
  have hnotice : Keeps PipeController.NoneRunning (PipeController.notice host pid procId) := by
    refine keeps_get_bind fun c hc => ?_
    split
    · exact PipeController.keeps_notifyTermination_noneRunning host.drainList host.ps pid procId c hc
    · exact hc
  have hloop : ∀ names, Keeps NoneRunning (notifyLoop host pid procId names) := by
    intro names
    induction names with
    | nil => exact keeps_pure _
    | cons name names ih => exact (keepsEvery_onPipe hnotice).bind fun _ => ih
  exact keeps_get_bind fun node hnode => hloop _ node hnode

theorem keeps_registerLaunchedInstance_noneRunning (ps : ℕ → Except PyError (List ℕ)) (pid : ℕ) :
    Keeps NoneRunning (registerLaunchedInstance ps pid) := by
  apply keeps_registerLaunchedInstance
  intro r
  exact keepsEvery_onPipe (PipeController.keepsEvery_onProcessor
    (ProcessorController.keeps_onInstance (WorkerController.keeps_register ps pid)))

end ComputeNode

namespace LoadingNode

variable {s : LoadingNode}

theorem keeps_onNode {α : Type} {P : ComputeNode → Prop} {m : PyM ComputeNode α} (hm : Keeps P m) :
    Keeps (fun s => P s.node) (onNode m) := by
  intro s hs
  have hkept := hm s.node hs
  rw [onNode]
  cases hcall : m s.node with
  | ok a node | error e node =>
    rw [hcall] at hkept
    simp only
    exact hkept

/-- A load adds a pipe, or it adds nothing. -/
theorem node_of_loadPipe (refuses : String → Bool) (pipe : APIPipe) (s : LoadingNode) :
    (stateOf (loadPipe refuses pipe s)).node = s.node ∨
      (stateOf (loadPipe refuses pipe s)).node = s.node.withPipe pipe.id (PipeController.load pipe) := by
  cases hload : loadPipe refuses pipe s with
  | error e s' =>
    left
    rcases loadPipe_error hload with ⟨-, rfl⟩ | ⟨-, hnode, -, -⟩
    · rfl
    · exact hnode
  | ok _ s' =>
    right
    by_cases hloaded : pipe.id ∈ s.node.pipeControllers.keys
    · obtain ⟨e, he⟩ := loadPipe_loaded refuses hloaded
      rw [hload] at he
      cases he
    · rw [loadPipe_new hloaded] at hload
      cases hinto : PipeController.loadInto refuses pipe s.memory with
      | error e memory =>
        rw [hinto] at hload
        cases hload
      | ok p memory =>
        rw [hinto] at hload
        obtain ⟨-, rfl⟩ := EStateM.Result.ok.inj hload
        obtain ⟨c, queues⟩ := p
        obtain ⟨rfl, -⟩ := loadInto_ok hinto
        rfl

/-- A request makes no instance RUNNING. -/
theorem keeps_endpoint (host : Host) (request : Request) :
    Keeps (fun s => s.node.NoneRunning) (endpoint host request) := by
  cases request with
  | loadPipe pipe =>
    intro s hs
    have hnode : (stateOf (loadPipeEndpoint host pipe s)).node = (stateOf (loadPipe host.refuses pipe s)).node := by
      rw [loadPipeEndpoint]
      cases loadPipe host.refuses pipe s with
      | ok _ s' => rfl
      | error e s' =>
        dsimp only
        split
        · rfl
        · rfl
    show (stateOf (loadPipeEndpoint host pipe s)).node.NoneRunning
    rw [hnode]
    rcases node_of_loadPipe host.refuses pipe s with hsame | hnew
    · rw [hsame]
      exact hs
    · rw [hnew]
      -- a processor starts without instances
      refine ComputeNode.Every.withPipe hs fun item hitem => ?_
      obtain ⟨_, -, rfl⟩ := List.mem_map.mp hitem
      exact fun i hi => absurd hi List.not_mem_nil
  | registerProc pid =>
    refine Keeps.bind (keeps_onNode (ComputeNode.keeps_registerLaunchedInstance_noneRunning host.ps pid)) fun r => ?_
    refine keeps_get_bind fun s hs => ?_
    cases s.node.instanceAt r with
    | none => exact hs
    | some i => exact Keeps.bind (P := fun s => s.node.NoneRunning) (keeps_ofExcept _) (fun _ => keeps_pure _) s hs
  | notifyTermination pid procId =>
    exact Keeps.bind (keeps_onNode (ComputeNode.keeps_notifyTermination host pid procId)) fun _ => keeps_pure _

end LoadingNode

/-- No instance of a node is ever RUNNING. -/
theorem ComputeNode.Reachable.noneRunning {node : ComputeNode} (h : node.Reachable) : node.NoneRunning := by
  induction h with
  | empty => exact fun _ hitem => absurd hitem List.not_mem_nil
  | request host request _ ih => exact LoadingNode.keeps_endpoint host request _ ih
  | pipe _ _ _ hget hstep ih => exact Every.withPipe ih (PipeController.NoneRunning.step (Every.get ih hget) hstep)
  | node _ hstep ih =>
    refine ScalingNode.Every.step (fun _ => ProcessorController.lasting_idle) ?_ ih ?_ hstep
    · exact fun _ _ pid colour hp _ _ => hp.withLaunched pid colour
    · intro pipe launched _
      exact keepsEvery_onPipe (PipeController.keeps_start_noneRunning launched) _ ih

end Upipe
