import Upipe.Common.Python
import Upipe.Types.Pipe

/-!
# The controllers of the node manager

A `PipeController` owns one `ProcessorController` for each processor of its pipe, and that owns one
`WorkerController` for each launched instance. Processes, the process table and the websockets are the
surroundings: an exit code, the answer of `psutil` and a connection are data here.

`loop.create_task(self.set_pipe_status(..))` only schedules the change; `tasks` holds what is scheduled,
oldest first, and `runTask` is the turn of the event loop that makes it.
-/

namespace Upipe

open Upipe.Common

/-! ## One instance -/

/-- The output queue of an instance: text from a process, lines of bytes from a subprocess. -/
inductive Stdout where
  | process (chunks : List String)
  | subProcess (lines : List Bytes)
deriving DecidableEq

/-- `WorkerController`. `colour` is the escape codes that `color_index` picks. -/
structure WorkerController where
  proc : APIProcessor
  pid : ℕ
  exitCode : Option ℤ
  state : InstanceState
  connected : Bool
  colour : String
  stdoutQ : Stdout
deriving DecidableEq

namespace WorkerController

/-- `__init__`, for a process that the system has given a pid. -/
def launched (proc : APIProcessor) (pid : ℕ) (colour : String) (stdoutQ : Stdout) :
    WorkerController where
  proc := proc
  pid := pid
  exitCode := none
  state := .launched
  connected := false
  colour := colour
  stdoutQ := stdoutQ

def name (i : WorkerController) : String := i.proc.name

def procId (i : WorkerController) : String := i.proc.id

def isDone (i : WorkerController) : Bool := i.state = .done

def running (i : WorkerController) : Bool := i.state = .running

def isLaunched (i : WorkerController) : Bool := i.state = .launched

/-- `is_child_process`, with the process table `ps`. -/
def isChildProcess (ps : ℕ → Except PyError (List ℕ)) (pid : ℕ) (i : WorkerController) :
    Except PyError Bool := do
  let childProcesses ← ps i.pid
  pure (pid ∈ childProcesses)

/-- `register`. The state changes before the pid is checked. -/
def register (ps : ℕ → Except PyError (List ℕ)) (pid : ℕ) : PyM WorkerController Unit := do
  modify fun i => { i with state := .ready }
  let i ← get
  if i.pid = pid then pure ()
  else if ← ofExcept (i.isChildProcess ps pid) then pure ()
  else throw ⟨.brokenPipeError, s!"Can not register PID to instance {i.name}"⟩

/-- `request_termination`. The state changes before the message goes out. -/
def requestTermination : PyM WorkerController Unit := do
  modify fun i => { i with state := .pendingTermination }
  let i ← get
  if i.connected then pure ()
  else throw ⟨.attributeError, "'NoneType' object has no attribute 'send_json'"⟩

/-- `notify_termination`. -/
def notifyTermination (i : WorkerController) : WorkerController := { i with state := .done }

/-- `handle_exit`, with the lines that the subprocess has left. -/
def handleExit (lines : List Bytes) (i : WorkerController) : WorkerController :=
  match i.stdoutQ with
  | .process _ => { i with state := .done }
  | .subProcess old => { i with stdoutQ := .subProcess (old ++ lines), state := .done }

/-- Whitespace for `str.strip`. -/
def isSpace (ch : Char) : Bool :=
  let n := ch.toNat
  (9 ≤ n && n ≤ 13) || (28 ≤ n && n ≤ 32) || n == 0x85 || n == 0xA0 || n == 0x1680
    || (0x2000 ≤ n && n ≤ 0x200A) || n == 0x2028 || n == 0x2029 || n == 0x202F || n == 0x205F
    || n == 0x3000

/-- `line.strip()`. -/
def strip (line : String) : String :=
  String.ofList (((line.toList.dropWhile isSpace).reverse.dropWhile isSpace).reverse)

/-- The line to print for some text, if there is one. -/
def lineOf (i : WorkerController) (line : String) : Option String :=
  if line = "" ∨ line = "\n" then none
  else some (s!"{i.name}({i.pid})" ++ i.colour ++ ">>>" ++ "\x1b[0m" ++ line)

/-- `read_stdout_line`. -/
def readStdoutLine : PyM WorkerController (Option String) := do
  let i ← get
  match i.stdoutQ with
  | .process [] | .subProcess [] => pure none
  | .process (line :: rest) =>
      set { i with stdoutQ := .process rest }
      pure (i.lineOf line)
  | .subProcess (line :: rest) =>
      set { i with stdoutQ := .subProcess rest }
      if line = [] then pure none
      else do
        let text ← ofExcept (decodeUtf8 line)
        pure (i.lineOf (strip text))

end WorkerController

/-! ## One processor -/

/-- `ProcessorController`. -/
structure ProcessorController where
  proc : APIProcessor
  instances : List WorkerController
  status : ProcessorExecutionStatus

namespace ProcessorController

def runningInstances (p : ProcessorController) : List WorkerController :=
  p.instances.filter WorkerController.running

def runningInstancesNum (p : ProcessorController) : ℕ := p.runningInstances.length

def pendingTermination (p : ProcessorController) : Bool := p.status = .pendingTermination

/-- `executable`. -/
def executable (p : ProcessorController) : Bool := p.proc.entry.isSome

/-- Python's truth value of an optional text. -/
def isGiven (text : Option String) : Bool := text ≠ none ∧ text ≠ some ""

/-- `launch_instance`, with the pid and the colours that the new instance gets. -/
def launchInstance (pid : ℕ) (colour : String) : PyM ProcessorController Unit := do
  let p ← get
  if isGiven p.proc.entry then
    let stdoutQ := if isGiven p.proc.function then Stdout.process [] else Stdout.subProcess []
    set { p with instances := p.instances ++ [WorkerController.launched p.proc pid colour stdoutQ] }
  else throw ⟨.environmentError, "Can not launch processor with no entry point"⟩

/-- A method call on `self.instances[n]`. -/
def onInstance (n : ℕ) (m : PyM WorkerController Unit) : PyM ProcessorController Unit := fun p =>
  match p.instances[n]? with
  | none => .error ⟨.indexError, "list index out of range"⟩ p
  | some i =>
      match m i with
      | .ok _ i' => .ok () { p with instances := p.instances.set n i' }
      | .error e i' => .error e { p with instances := p.instances.set n i' }

/-- The position of the instance that `get_instance_by_pid` returns. -/
def findByPid (ps : ℕ → Except PyError (List ℕ)) (pid : ℕ) :
    List WorkerController → Except PyError (Option ℕ)
  | [] => .ok none
  | i :: instances =>
      if i.pid = pid then .ok (some 0)
      else do
        if ← i.isChildProcess ps pid then pure (some 0)
        else do
          let found ← findByPid ps pid instances
          pure (found.map (· + 1))

/-- `on_complete`. -/
def onComplete (_withErrors : Bool) (p : ProcessorController) : ProcessorController :=
  { p with status := .completed }

/-- `notify_termination`. -/
def notifyTermination (ps : ℕ → Except PyError (List ℕ)) (pid : ℕ) :
    PyM ProcessorController Bool := do
  let p ← get
  match ← ofExcept (findByPid ps pid p.instances) with
  | some i =>
      set { p with instances := p.instances.modify i WorkerController.notifyTermination }
  | none => pure ()
  let p ← get
  if p.pendingTermination ∧ p.runningInstances = [] then do
    set { p with status := .completed }
    pure true
  else pure false

/-- The loop of `request_termination`. -/
def requestAll : List WorkerController → EStateM.Result PyError (List WorkerController) Unit
  | [] => .ok () []
  | i :: instances =>
      match WorkerController.requestTermination i with
      | .ok _ i' =>
          match requestAll instances with
          | .ok _ instances' => .ok () (i' :: instances')
          | .error e instances' => .error e (i' :: instances')
      | .error e i' => .error e (i' :: instances)

/-- `request_termination`. -/
def requestTermination : PyM ProcessorController Unit := fun p =>
  match requestAll p.instances with
  | .ok _ instances => .ok () { p with instances := instances, status := .pendingTermination }
  | .error e instances => .error e { p with instances := instances }

end ProcessorController

/-! ## One pipe -/

/-- `PipeController`. `requested` is a ghost: the processors that `terminate_next_processor` has sent a
request to. -/
structure PipeController where
  name : String
  pipe : APIPipe
  processors : Dict String ProcessorController
  status : PipeExecutionStatus
  tasks : List PipeExecutionStatus
  requested : List String

namespace PipeController

def pendingTermination (c : PipeController) : Bool := c.status = .pendingTermination

/-- `self.processors[key]`. -/
def processor (c : PipeController) (key : String) : Except PyError ProcessorController :=
  match c.processors.get? key with
  | some p => .ok p
  | none => .error ⟨.keyError, key⟩

/-- A method call on `self.processors[key]`. -/
def onProcessor {α : Type} (key : String) (m : PyM ProcessorController α) : PyM PipeController α :=
  fun c =>
    match c.processors.get? key with
    | none => .error ⟨.keyError, key⟩ c
    | some p =>
        match m p with
        | .ok a p' => .ok a { c with processors := c.processors.set key p' }
        | .error e p' => .error e { c with processors := c.processors.set key p' }

/-- `load`. -/
def load (pipe : APIPipe) : PipeController where
  name := pipe.name
  pipe := pipe
  processors := pipe.processors.map fun proc => { proc := proc, instances := [], status := .init }
  status := .ready
  tasks := []
  requested := []

/-- `loop.create_task(self.set_pipe_status(status))`. -/
def schedule (status : PipeExecutionStatus) (c : PipeController) : PipeController :=
  { c with tasks := c.tasks ++ [status] }

/-- The loop of `start`, with the pid and the colours that each processor's instance gets. -/
def launchAll (launched : String → ℕ × String) : List String → PyM PipeController Unit
  | [] => pure ()
  | key :: keys => do
      onProcessor key (do
        let p ← get
        if p.executable then ProcessorController.launchInstance (launched key).1 (launched key).2
        else pure ())
      launchAll launched keys

/-- `start`. -/
def start (launched : String → ℕ × String) : PyM PipeController Unit := do
  let c ← get
  if c.status = .init then throw ⟨.assertionError, "Cant start an empty pipe"⟩
  else do
    launchAll launched c.processors.keys
    modify (schedule .running)

/-- `get_instance_by_pid`: the processor of the instance and its position there. -/
def getInstanceByPid (ps : ℕ → Except PyError (List ℕ)) (pid : ℕ) :
    List (String × ProcessorController) → Except PyError (Option (String × ℕ))
  | [] => .ok none
  | (key, p) :: processors => do
      match ← ProcessorController.findByPid ps pid p.instances with
      | some n => pure (some (key, n))
      | none => getInstanceByPid ps pid processors

/-- `register_launched_instance` on the pipe that has the instance. -/
def registerLaunchedInstance (ps : ℕ → Except PyError (List ℕ)) (pid : ℕ) :
    PyM PipeController Unit := do
  let c ← get
  match ← ofExcept (getInstanceByPid ps pid c.processors.entries) with
  | none => throw ⟨.brokenPipeError, s!"Missing launched instance pid : {pid}"⟩
  | some (key, n) =>
      onProcessor key (ProcessorController.onInstance n (do
        let i ← get
        if i.isLaunched then WorkerController.register ps pid
        else throw ⟨.brokenPipeError, s!"Instance already registered: '{i.name}' ({i.pid})"⟩))

/-- `running_processors`. -/
def runningProcessors (c : PipeController) : List ProcessorController :=
  c.processors.values.filter fun p => p.runningInstancesNum > 0

def runningProcessorsNum (c : PipeController) : ℕ := c.runningProcessors.length

/-- The first processor of the list that has a running instance. -/
def nextProcessor (c : PipeController) : List APIProcessor → Except PyError (Option String)
  | [] => .ok none
  | procDef :: terminationList => do
      let p ← c.processor procDef.id
      if p.runningInstancesNum = 0 then c.nextProcessor terminationList else pure (some procDef.id)

/-- `terminate_next_processor`, with the drain list that `self.pipe.drain_list()` returns. -/
def terminateNextProcessor (drainList : APIPipe → List APIProcessor) : PyM PipeController Unit := do
  let c ← get
  match ← ofExcept (c.nextProcessor (drainList c.pipe)) with
  | some key =>
      modify fun c => { c with requested := c.requested ++ [key] }
      onProcessor key ProcessorController.requestTermination
  | none => pure ()
  let c ← get
  if c.runningProcessorsNum = 0 then modify (schedule .completed) else pure ()

/-- `request_termination`. -/
def requestTermination (drainList : APIPipe → List APIProcessor) : PyM PipeController Unit := do
  modify (schedule .pendingTermination)
  terminateNextProcessor drainList

/-- `notify_termination`. -/
def notifyTermination (drainList : APIPipe → List APIProcessor) (ps : ℕ → Except PyError (List ℕ))
    (pid : ℕ) (key : String) : PyM PipeController Unit := do
  let c ← get
  if c.processors.contains key then do
    let _ ← onProcessor key (ProcessorController.notifyTermination ps pid)
  let c ← get
  if c.pendingTermination then terminateNextProcessor drainList else pure ()

/-- `set_pipe_status` for the oldest task, when there is one. -/
def runTask (c : PipeController) : Option PipeController :=
  match c.tasks with
  | [] => none
  | status :: tasks => some { c with status := status, tasks := tasks }

end PipeController

end Upipe
