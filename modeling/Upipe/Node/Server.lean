import Upipe.Node.Manager.Attach
import Upipe.Node.Manager.Draining
import Upipe.Node.Manager.Loading

/-!
# The endpoints of the node server

`load_pipe`, `register_proc` and `notify_termination` answer a request with a response, or raise, which the
client is told by status 500. After a request the event loop runs the status changes that were scheduled;
`serve` is a request together with these.
-/

namespace Upipe

open Upipe.Common

/-! ## Requests and responses -/

/-- The bodies of the messages that answer a registration. -/
inductive MessageBody where
  | registrationInfo (instanceId : String)
  | procQueues (procId : String) (queues : Dict String APIQueue)

/-- `UPipeMessage`. -/
structure UPipeMessage where
  dest : String
  sender : String
  body : MessageBody

/-- `APIResponse`. -/
structure APIResponse where
  success : Bool
  messages : List UPipeMessage := []
  data : PyVal := .none
  text : Option String := none

/-- The `id` of `server_proc_def`. -/
def serverId : String := "upipe-local-server"

/-- `server_proc_def.dict()`. -/
def serverProcDef : PyVal :=
  .dict [(.str "id", .str serverId), (.str "name", .str serverId), (.str "type", .int 6),
    (.str "settings", .dict []), (.str "config", .dict [])]

/-- What the endpoints find on their machine: names of shared memory that the system refuses, the process
table, and the lists that `drain_list` returns. -/
structure Host where
  refuses : String → Bool
  ps : ℕ → Except PyError (List ℕ)
  drainList : APIPipe → List APIProcessor

/-- A request that is repeated by `retry`. -/
inductive Request where
  | loadPipe (pipe : APIPipe)
  | registerProc (pid : ℕ)
  | notifyTermination (pid : ℕ) (procId : String)

/-! ## The node -/

namespace PipeController

/-- The turn of a pipe in `notify_termination` of the node. -/
def notice (host : Host) (pid : ℕ) (procId : String) : PyM PipeController Unit := do
  let c ← get
  if c.processors.contains procId then notifyTermination host.drainList host.ps pid procId else pure ()

/-- The controller after all its scheduled tasks. -/
def settle (c : PipeController) : PipeController :=
  { c with status := c.tasks.getLast?.getD c.status, tasks := [] }

end PipeController

namespace ComputeNode

/-- The loop of `notify_termination`. -/
def notifyLoop (host : Host) (pid : ℕ) (procId : String) : List String → PyM ComputeNode Unit
  | [] => pure ()
  | name :: names => do
      onPipe name (PipeController.notice host pid procId)
      notifyLoop host pid procId names

/-- `notify_termination`. -/
def notifyTermination (host : Host) (pid : ℕ) (procId : String) : PyM ComputeNode Unit := do
  let node ← get
  notifyLoop host pid procId node.pipeControllers.keys

end ComputeNode

/-! ## The endpoints -/

namespace LoadingNode

/-- A method call on the node. -/
def onNode {α : Type} (m : PyM ComputeNode α) : PyM LoadingNode α := fun s =>
  match m s.node with
  | .ok a node => .ok a { s with node := node }
  | .error e node => .error e { s with node := node }

/-- The endpoint `load_pipe`. An exception is answered with its text. -/
def loadPipeEndpoint (host : Host) (pipe : APIPipe) : PyM LoadingNode APIResponse := fun s =>
  match loadPipe host.refuses pipe s with
  | .ok _ s' => .ok { success := true, data := serverProcDef } s'
  | .error e s' =>
      if e.kind = .pipelineAlreadyExist then .ok { success := false, text := some e.text } s'
      else .ok { success := false, text := some ("Error loading pipe:" ++ e.text) } s'

/-- The endpoint `register_proc`. -/
def registerProcEndpoint (host : Host) (pid : ℕ) : PyM LoadingNode APIResponse := do
  let r ← onNode (ComputeNode.registerLaunchedInstance host.ps pid)
  let s ← get
  match s.node.instanceAt r with
  | none => throw ⟨.indexError, "list index out of range"⟩
  | some i =>
      let queuesDef ← ofExcept (getProcQueues s.wiring i.proc.id)
      pure
        { success := true
          data := .dict [(.str "config", i.proc.config)]
          messages :=
            [{ dest := i.proc.id, sender := serverId, body := .registrationInfo (toString pid) },
              { dest := i.proc.id, sender := serverId, body := .procQueues i.proc.id queuesDef }] }

/-- The endpoint `notify_termination`. -/
def notifyTerminationEndpoint (host : Host) (pid : ℕ) (procId : String) : PyM LoadingNode APIResponse := do
  onNode (ComputeNode.notifyTermination host pid procId)
  pure { success := true }

/-- The endpoint of a request. -/
def endpoint (host : Host) : Request → PyM LoadingNode APIResponse
  | .loadPipe pipe => loadPipeEndpoint host pipe
  | .registerProc pid => registerProcEndpoint host pid
  | .notifyTermination pid procId => notifyTerminationEndpoint host pid procId

/-- The node after all scheduled tasks. -/
def settle (s : LoadingNode) : LoadingNode :=
  { s with node := { pipeControllers := s.node.pipeControllers.map PipeController.settle } }

/-- A request, and then the event loop until nothing is scheduled. -/
def serve (host : Host) (request : Request) : PyM LoadingNode APIResponse := fun s =>
  mapState settle (endpoint host request s)

end LoadingNode

/-! ## Scheduled tasks -/

namespace PipeController

/-- The turns of the event loop end where `settle` does. -/
theorem settle_of_runTask {c c' : PipeController} (h : c.runTask = some c') : c'.settle = c.settle := by
  rw [runTask] at h
  cases htasks : c.tasks with
  | nil =>
    rw [htasks] at h
    cases h
  | cons status tasks =>
    rw [htasks] at h
    cases h
    rw [settle, settle, htasks, List.getLast?_cons]
    rfl

theorem settle_of_nil {c : PipeController} (h : c.tasks = []) : c.settle = c := by
  rw [settle, h]
  cases c
  cases h
  rfl

theorem settle_settle (c : PipeController) : c.settle.settle = c.settle := settle_of_nil rfl

end PipeController

theorem LoadingNode.settle_settle (s : LoadingNode) : s.settle.settle = s.settle := by
  have hmap : (s.node.pipeControllers.map PipeController.settle).map PipeController.settle
      = s.node.pipeControllers.map PipeController.settle := by
    apply Dict.map_eq_self
    rw [Dict.values_map]
    rintro _ hc
    obtain ⟨c, -, rfl⟩ := List.mem_map.mp hc
    exact c.settle_settle
  rw [settle, settle, hmap]

end Upipe
