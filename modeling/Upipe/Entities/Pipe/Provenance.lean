import Upipe.Common.Runs
import Upipe.Entities.Worker.Defs

/-!
# Where a result comes from

A frame enters a pipe through `emit` or `emit_sync` of the pipe process, and every worker passes the
execution id of the frame that it got last on to the frames that it emits. `emit_sync` leaves a future
under the id of its frame, and `_baby_sitter` resolves it with the first sink frame that carries the id.

A queue is all that was ever put in it, and a `get` returns any of these. `Sent` is a frame with the ghost
record of its descent.
-/

namespace Upipe

open Upipe.Common

/-! ## Frames and their descent -/

/-- A frame that was put in a queue: by a call of the pipe process, by a worker that last got `parent`, or
by a worker that has got nothing yet. -/
inductive Sent where
  | root (call : ℕ) (frame : DataFrame)
  | child (parent : Sent) (frame : DataFrame)
  | orphan (frame : DataFrame)

namespace Sent

def frame : Sent → DataFrame
  | root _ frame | child _ frame | orphan frame => frame

/-- The frame descends from the one that a call emitted. -/
def DescendsFrom (n : ℕ) : Sent → Prop
  | root call _ => call = n
  | child parent _ => parent.DescendsFrom n
  | orphan _ => False

/-- `pipe_execution_id` of the frame. -/
def pipeExecutionId (item : Sent) : PyVal := item.frame.pipeExecutionId

instance decDescendsFrom (n : ℕ) : ∀ item : Sent, Decidable (item.DescendsFrom n)
  | root call _ => inferInstanceAs (Decidable (call = n))
  | child parent _ => decDescendsFrom n parent
  | orphan _ => isFalse id

theorem DescendsFrom.unique {n m : ℕ} {item : Sent} (h : item.DescendsFrom n)
    (h' : item.DescendsFrom m) : m = n := by
  induction item with
  | root call frame => exact h'.symm.trans h
  | child parent frame ih => exact ih h h'
  | orphan frame => cases h

end Sent

/-- Where a frame is put. -/
inductive Destination where
  | queue (id : String)
  | sink
deriving DecidableEq

/-- Where `Worker.emit` sends a frame: to every output queue, or to the sink when there is none. -/
def destinations (outQs : List String) (hasSink : Bool) : List Destination :=
  if outQs ≠ [] then outQs.map .queue else if hasSink then [.sink] else []

/-! ## The parties -/

/-- One worker process: what `get` and `emit` read of it, and the frame that it is sending with the
destinations that are left. `got` is a ghost: the frame that it got last. -/
structure PipeWorker where
  inQs : List String
  outQs : List String
  hasSink : Bool
  currentPipeExecutionId : PyVal
  sending : Option (Sent × List Destination)
  got : Option Sent

namespace PipeWorker

/-- `get`, when it finds a frame. -/
def gets (worker : PipeWorker) (item : Sent) : PipeWorker :=
  { worker with
    currentPipeExecutionId := if item.pipeExecutionId.truthy then item.pipeExecutionId else .none
    got := some item }

/-- The frame that `Worker.emit` sends. -/
def stamped (c : Codec) (worker : PipeWorker) (data : EmitData) : Except PyError DataFrame :=
  Worker.stampedFrame c
    { outQs := [], sinkQ := none, processedCounter := 0
      currentPipeExecutionId := worker.currentPipeExecutionId } data

/-- The record of a frame that the worker emits. -/
def emits (worker : PipeWorker) (frame : DataFrame) : Sent :=
  match worker.got with
  | some parent => .child parent frame
  | none => .orphan frame

/-- The start of `Worker.emit`. -/
def starts (c : Codec) (worker : PipeWorker) (data : EmitData) : PipeWorker :=
  match worker.stamped c data with
  | .error _ => worker
  | .ok frame =>
      match destinations worker.outQs worker.hasSink with
      | [] => worker
      | dests => { worker with sending := some (worker.emits frame, dests) }

end PipeWorker

/-- Where a call of the pipe process is: `emit_sync` waits for space, both send, and `emit_sync` waits for
its future. `refused` is the return of `False` when a queue does not take the frame. -/
inductive CallPhase where
  | polling
  | sending (left : List Destination)
  | waiting
  | returned (value : PyVal)
  | refused
  | timedOut
  | raised (e : PyError)

/-- A call of `emit`, or of `emit_sync` when `sync`. -/
structure Call where
  sync : Bool
  frame : DataFrame
  phase : CallPhase

namespace Call

def pipeExecutionId (call : Call) : PyVal := call.frame.pipeExecutionId

/-- The value that the call has returned at its end, if it has. -/
def received (call : Call) : Option PyVal :=
  match call.phase with
  | .returned value => some value
  | _ => none

/-- The value that the call has returned, there or when a queue refused its frame. -/
def result (call : Call) : Option PyVal :=
  match call.phase with
  | .refused => some (.bool false)
  | _ => call.received

/-- What the call does behind its last put. -/
def sent (call : Call) : CallPhase := if call.sync then .waiting else .returned (.bool true)

end Call

/-- A pipe process with its workers. `monitor` is the exception that ended `_baby_sitter`, and `reads`
counts the frames that it has read. -/
structure PipeState where
  outQs : List String
  queues : String → List Sent
  sink : List Sent
  workers : List PipeWorker
  calls : List Call
  executingFrames : Dict PyVal (Option Sent)
  monitor : Option PyError
  reads : ℕ

namespace PipeState

/-! ## Steps -/

/-- The steps of the parties: a call begins, finds space, has its next put answered, raises, wakes up from
its wait; the sink's monitor reads a frame; a worker gets a frame, begins to emit, has its next put
answered, raises. -/
inductive PipeStep where
  | emit (sync : Bool) (data : EmitData) (uuid : String)
  | poll (n : ℕ)
  | put (n : ℕ) (added : Bool)
  | fail (n : ℕ) (e : PyError)
  | wake (n : ℕ)
  | readSink (k : ℕ)
  | get (w : ℕ) (q : String) (k : ℕ)
  | workerEmit (w : ℕ) (data : EmitData)
  | workerPut (w : ℕ) (added : Bool)
  | workerFail (w : ℕ)

/-- A frame is put at its destination. -/
def deliver (s : PipeState) (item : Sent) : Destination → PipeState
  | .queue q => { s with queues := fun r => if r = q then s.queues r ++ [item] else s.queues r }
  | .sink => { s with sink := s.sink ++ [item] }

/-- A call goes on to another phase. -/
def setPhase (s : PipeState) (n : ℕ) (call : Call) (phase : CallPhase) : PipeState :=
  { s with calls := s.calls.set n { call with phase := phase } }

def setWorker (s : PipeState) (w : ℕ) (worker : PipeWorker) : PipeState :=
  { s with workers := s.workers.set w worker }

section Step

variable (c : Codec)

/-- `_generate_pipe_frame`, with the uuid that a frame without an id gets. -/
def generatePipeFrame (data : EmitData) (uuid : String) : Except PyError DataFrame := do
  let frame ← Worker.frameOf c data
  if frame.pipeExecutionId = .none then frame.setPipeExeId c (.str uuid) else pure frame

/-- The start of `emit` and `emit_sync`, while the pipe is RUNNING. -/
def startCall (s : PipeState) (sync : Bool) (data : EmitData) (uuid : String) : PipeState :=
  match generatePipeFrame c data uuid with
  | .error _ => s
  | .ok frame =>
      if sync then
        { s with
          calls := s.calls ++ [{ sync := sync, frame := frame, phase := .polling }]
          executingFrames := s.executingFrames.set frame.pipeExecutionId none }
      else
        { s with
          calls := s.calls ++
            [{ sync := sync, frame := frame, phase := .sending (destinations s.outQs true) }] }

/-- The wait of `emit_sync` ends, because its future is resolved or because of the timeout. -/
def wakePhase (s : PipeState) (call : Call) : CallPhase :=
  match s.executingFrames.get? call.pipeExecutionId with
  | none => .raised ⟨.keyError, ""⟩
  | some none => .timedOut
  | some (some item) =>
      match item.frame.data with
      | .ok value => .returned value
      | .error e => .raised e

/-- A turn of `_baby_sitter` that gets a frame. -/
def monitorSink (s : PipeState) (item : Sent) : PipeState :=
  if item.pipeExecutionId.truthy then
    match s.executingFrames.get? item.pipeExecutionId with
    | none =>
        { s with
          reads := s.reads + 1
          monitor := some ⟨.brokenPipeError, "Completed frame not found on log"⟩ }
    | some (some _) =>
        { s with
          reads := s.reads + 1
          monitor := some ⟨.invalidStateError, "invalid state"⟩ }
    | some none =>
        { s with
          reads := s.reads + 1
          executingFrames := s.executingFrames.set item.pipeExecutionId (some item) }
  else { s with reads := s.reads + 1 }

/-- The steps of the system. -/
def pipeStep (s : PipeState) : PipeStep → Option PipeState
  | .emit sync data uuid => some (s.startCall c sync data uuid)
  | .poll n => do
      let call ← s.calls[n]?
      match call.phase with
      | .polling =>
          if s.outQs = [] then some (s.setPhase n call (.raised ⟨.indexError, "list index out of range"⟩))
          else some (s.setPhase n call (.sending (destinations s.outQs true)))
      | _ => none
  | .put n added => do
      let call ← s.calls[n]?
      match call.phase with
      | .sending (dest :: left) =>
          if added then
            some ((s.deliver (.root n call.frame) dest).setPhase n call
              (if left = [] then call.sent else .sending left))
          else some (s.setPhase n call .refused)
      | _ => none
  | .fail n e => do
      let call ← s.calls[n]?
      match call.phase with
      | .polling | .sending _ => some (s.setPhase n call (.raised e))
      | _ => none
  | .wake n => do
      let call ← s.calls[n]?
      match call.phase with
      | .waiting => some (s.setPhase n call (s.wakePhase call))
      | _ => none
  | .readSink k => do
      let item ← s.sink[k]?
      if s.monitor = none then some (s.monitorSink item) else none
  | .get w q k => do
      let worker ← s.workers[w]?
      let item ← (s.queues q)[k]?
      if q ∈ worker.inQs ∧ worker.sending.isNone then some (s.setWorker w (worker.gets item)) else none
  | .workerEmit w data => do
      let worker ← s.workers[w]?
      if worker.sending.isNone then some (s.setWorker w (worker.starts c data)) else none
  | .workerPut w added => do
      let worker ← s.workers[w]?
      match worker.sending with
      | some (item, dest :: left) =>
          if added then
            some ((s.deliver item dest).setWorker w
              { worker with sending := if left = [] then none else some (item, left) })
          else some (s.setWorker w { worker with sending := none })
      | _ => none
  | .workerFail w => do
      let worker ← s.workers[w]?
      if worker.sending.isSome then some (s.setWorker w { worker with sending := none }) else none

end Step

/-! ## Properties -/

/-- Nothing has happened yet. -/
structure Fresh (s : PipeState) : Prop where
  queues : ∀ q, s.queues q = []
  sink : s.sink = []
  workers : ∀ w ∈ s.workers, w.currentPipeExecutionId = .none ∧ w.sending = none ∧ w.got = none
  calls : s.calls = []
  executingFrames : s.executingFrames = .empty
  monitor : s.monitor = none
  reads : s.reads = 0

/-- Every value that a call of `emit_sync` has returned is the data of a sink frame that descends from its
own frame and from that of no other call. -/
def ResultsGoBack (returns : Call → Option PyVal) (s : PipeState) : Prop :=
  ∀ n call value, s.calls[n]? = some call → call.sync → returns call = some value →
    ∃ item ∈ s.sink, item.DescendsFrom n ∧ (∀ m, item.DescendsFrom m → m = n) ∧
      item.frame.data = .ok value

def isText : PyVal → Bool
  | .str _ => true
  | _ => false

/-- Execution ids are texts, and no two calls use the same. -/
def DistinctIds (c : Codec) (s : PipeState) : PipeStep → Prop
  | .emit _ data uuid => ∀ frame ∈ (generatePipeFrame c data uuid).toOption,
      isText frame.pipeExecutionId ∧ ∀ call ∈ s.calls, call.pipeExecutionId ≠ frame.pipeExecutionId
  | _ => True

instance (c : Codec) (s : PipeState) (e : PipeStep) : Decidable (s.DistinctIds c e) :=
  match e with
  | .emit .. => inferInstanceAs (Decidable (∀ frame ∈ Except.toOption _, _ ∧ ∀ call ∈ s.calls, _))
  | .poll .. | .put .. | .fail .. | .wake .. | .readSink .. | .get .. | .workerEmit .. | .workerPut ..
  | .workerFail .. => isTrue trivial

/-- A worker without a current execution id emits no frame that has one of its own. -/
def NoForeignIds (c : Codec) (s : PipeState) : PipeStep → Prop
  | .workerEmit w data => ∀ worker ∈ s.workers[w]?, ∀ frame ∈ (Worker.frameOf c data).toOption,
      frame.pipeExecutionId.truthy → worker.currentPipeExecutionId.truthy
  | _ => True

instance (c : Codec) (s : PipeState) (e : PipeStep) : Decidable (s.NoForeignIds c e) :=
  match e with
  | .workerEmit w _ => inferInstanceAs (Decidable (∀ worker ∈ s.workers[w]?,
      ∀ frame ∈ Except.toOption _, _ → _))
  | .emit .. | .poll .. | .put .. | .fail .. | .wake .. | .readSink .. | .get .. | .workerPut ..
  | .workerFail .. => isTrue trivial

/-! ## What a step does -/

/-- The outcomes of a step. Only a call that wakes up, or one of `emit`, returns a value. -/
inductive Turns (c : Codec) (s : PipeState) : PipeStep → PipeState → Prop
  | emit (sync data uuid) : Turns c s (.emit sync data uuid) (s.startCall c sync data uuid)
  | phase {e n call phase} (hcall : s.calls[n]? = some call)
      (hreturned : ∀ value, phase = .returned value → s.wakePhase call = .returned value) :
      Turns c s e (s.setPhase n call phase)
  | put {n call dest left} (hcall : s.calls[n]? = some call)
      (hsending : call.phase = .sending (dest :: left)) :
      Turns c s (.put n true) ((s.deliver (.root n call.frame) dest).setPhase n call
        (if left = [] then call.sent else .sending left))
  | readSink {k item} (hitem : s.sink[k]? = some item) : Turns c s (.readSink k) (s.monitorSink item)
  | get {w q k worker item} (hworker : s.workers[w]? = some worker)
      (hitem : (s.queues q)[k]? = some item) :
      Turns c s (.get w q k) (s.setWorker w (worker.gets item))
  | workerEmit {w data worker} (hworker : s.workers[w]? = some worker) :
      Turns c s (.workerEmit w data) (s.setWorker w (worker.starts c data))
  | workerPut {w worker item dest left} (hworker : s.workers[w]? = some worker)
      (hsending : worker.sending = some (item, dest :: left)) :
      Turns c s (.workerPut w true) ((s.deliver item dest).setWorker w
        { worker with sending := if left = [] then none else some (item, left) })
  | workerStop {e w worker} (hworker : s.workers[w]? = some worker) :
      Turns c s e (s.setWorker w { worker with sending := none })

theorem pipeStep_turns {c : Codec} {s s' : PipeState} {e : PipeStep} (hstep : pipeStep c s e = some s') :
    Turns c s e s' := by
  cases e with
  | emit sync data uuid =>
    obtain rfl := Option.some.inj hstep
    exact .emit sync data uuid
  | poll n =>
    obtain ⟨call, hcall, hrest⟩ := Option.bind_eq_some_iff.mp hstep
    split at hrest
    · split at hrest
      · obtain rfl := Option.some.inj hrest
        exact .phase hcall fun _ => CallPhase.noConfusion
      · obtain rfl := Option.some.inj hrest
        exact .phase hcall fun _ => CallPhase.noConfusion
    · cases hrest
  | put n added =>
    obtain ⟨call, hcall, hrest⟩ := Option.bind_eq_some_iff.mp hstep
    split at hrest
    · rename_i hsending
      split at hrest
      · rename_i hadded
        subst hadded
        obtain rfl := Option.some.inj hrest
        exact .put hcall hsending
      · obtain rfl := Option.some.inj hrest
        exact .phase hcall fun _ => CallPhase.noConfusion
    · cases hrest
  | fail n e =>
    obtain ⟨call, hcall, hrest⟩ := Option.bind_eq_some_iff.mp hstep
    split at hrest
    · obtain rfl := Option.some.inj hrest
      exact .phase hcall fun _ => CallPhase.noConfusion
    · obtain rfl := Option.some.inj hrest
      exact .phase hcall fun _ => CallPhase.noConfusion
    · cases hrest
  | wake n =>
    obtain ⟨call, hcall, hrest⟩ := Option.bind_eq_some_iff.mp hstep
    split at hrest
    · obtain rfl := Option.some.inj hrest
      exact .phase hcall fun _ => id
    · cases hrest
  | readSink k =>
    obtain ⟨item, hitem, hrest⟩ := Option.bind_eq_some_iff.mp hstep
    split at hrest
    · obtain rfl := Option.some.inj hrest
      exact .readSink hitem
    · cases hrest
  | get w q k =>
    obtain ⟨worker, hworker, hrest⟩ := Option.bind_eq_some_iff.mp hstep
    obtain ⟨item, hitem, hrest⟩ := Option.bind_eq_some_iff.mp hrest
    split at hrest
    · obtain rfl := Option.some.inj hrest
      exact .get hworker hitem
    · cases hrest
  | workerEmit w data =>
    obtain ⟨worker, hworker, hrest⟩ := Option.bind_eq_some_iff.mp hstep
    split at hrest
    · obtain rfl := Option.some.inj hrest
      exact .workerEmit hworker
    · cases hrest
  | workerPut w added =>
    obtain ⟨worker, hworker, hrest⟩ := Option.bind_eq_some_iff.mp hstep
    split at hrest
    · rename_i hsending
      split at hrest
      · rename_i hadded
        subst hadded
        obtain rfl := Option.some.inj hrest
        exact .workerPut hworker hsending
      · obtain rfl := Option.some.inj hrest
        exact .workerStop hworker
    · cases hrest
  | workerFail w =>
    obtain ⟨worker, hworker, hrest⟩ := Option.bind_eq_some_iff.mp hstep
    split at hrest
    · obtain rfl := Option.some.inj hrest
      exact .workerStop hworker
    · cases hrest

/-! ## Owners -/

/-- The frame descends from that of a call with this execution id. -/
def Owns (calls : List Call) (id : PyVal) (item : Sent) : Prop :=
  ∃ n call, calls[n]? = some call ∧ call.pipeExecutionId = id ∧ item.DescendsFrom n

/-- A frame with an execution id descends from that of a call with this id. -/
def Honest (calls : List Call) (item : Sent) : Prop :=
  item.pipeExecutionId.truthy → Owns calls item.pipeExecutionId item

/-- Calls are added and change their phase, but keep their place and their frame. -/
def Continues (calls calls' : List Call) : Prop :=
  ∀ (n : ℕ) (call : Call), calls[n]? = some call → ∃ phase, calls'[n]? = some { call with phase := phase }

theorem continues_append (calls more : List Call) : Continues calls (calls ++ more) := by
  intro n call h
  refine ⟨call.phase, ?_⟩
  rw [List.getElem?_append_left (List.getElem?_eq_some_iff.mp h).1, h]

theorem continues_set {calls : List Call} {n : ℕ} {call : Call} (h : calls[n]? = some call)
    (phase : CallPhase) : Continues calls (calls.set n { call with phase := phase }) := by
  intro m call' h'
  by_cases heq : n = m
  · subst heq
    obtain rfl := Option.some.inj (h.symm.trans h')
    exact ⟨phase, List.getElem?_set_self (List.getElem?_eq_some_iff.mp h).1⟩
  · refine ⟨call'.phase, ?_⟩
    rw [List.getElem?_set_ne heq, h']

theorem Owns.continues {calls calls' : List Call} (hcalls : Continues calls calls') {id : PyVal}
    {item : Sent} (h : Owns calls id item) : Owns calls' id item := by
  obtain ⟨n, call, hcall, hid, hdescends⟩ := h
  obtain ⟨phase, hcall'⟩ := hcalls n call hcall
  exact ⟨n, _, hcall', hid, hdescends⟩

theorem Honest.continues {calls calls' : List Call} (hcalls : Continues calls calls') {item : Sent}
    (h : Honest calls item) : Honest calls' item :=
  fun hid => (h hid).continues hcalls

/-- Every execution id in the pipe is that of the call which the frame under it descends from. -/
structure Accounted (s : PipeState) : Prop where
  distinct : ∀ (n m : ℕ) (call call' : Call), s.calls[n]? = some call → s.calls[m]? = some call' →
    call.pipeExecutionId = call'.pipeExecutionId → n = m
  queued : ∀ q, ∀ item ∈ s.queues q, Honest s.calls item
  sunk : ∀ item ∈ s.sink, Honest s.calls item
  sending : ∀ w ∈ s.workers, ∀ item left, w.sending = some (item, left) → Honest s.calls item
  carried : ∀ w ∈ s.workers, w.currentPipeExecutionId.truthy →
    ∃ item, w.got = some item ∧ Owns s.calls w.currentPipeExecutionId item
  resolved : ∀ id item, s.executingFrames.get? id = some (some item) →
    item ∈ s.sink ∧ item.pipeExecutionId = id ∧ id.truthy
  returned : ∀ (n : ℕ) (call : Call) value, s.calls[n]? = some call → call.sync → call.phase = .returned value →
    ∃ item ∈ s.sink, item.DescendsFrom n ∧ item.frame.data = .ok value

theorem Fresh.accounted {s : PipeState} (h : s.Fresh) : s.Accounted where
  distinct n m call call' hcall := by
    rw [h.calls] at hcall
    cases hcall
  queued q item hitem := by
    rw [h.queues] at hitem
    cases hitem
  sunk item hitem := by
    rw [h.sink] at hitem
    cases hitem
  sending w hw item left hsending := by
    rw [(h.workers w hw).2.1] at hsending
    cases hsending
  carried w hw hid := by
    rw [(h.workers w hw).1] at hid
    cases hid
  resolved id item hget := by
    rw [h.executingFrames] at hget
    cases hget
  returned n call value hcall := by
    rw [h.calls] at hcall
    cases hcall

/-! ## What a step does to the accounts -/

variable {c : Codec} {s s' : PipeState}

theorem Accounted.deliver (h : s.Accounted) {item : Sent} (hitem : Honest s.calls item)
    (dest : Destination) : (s.deliver item dest).Accounted := by
  cases dest with
  | queue q =>
    refine { h with queued := ?_ }
    intro r item' hitem'
    by_cases hr : r = q
    · simp only [PipeState.deliver, if_pos hr] at hitem'
      rcases List.mem_append.mp hitem' with hold | hnew
      · exact h.queued r item' hold
      · rw [List.mem_singleton.mp hnew]
        exact hitem
    · simp only [PipeState.deliver, if_neg hr] at hitem'
      exact h.queued r item' hitem'
  | sink =>
    refine { h with sunk := ?_, resolved := ?_, returned := ?_ }
    · intro item' hitem'
      rcases List.mem_append.mp hitem' with hold | hnew
      · exact h.sunk item' hold
      · rw [List.mem_singleton.mp hnew]
        exact hitem
    · intro id item' hget
      obtain ⟨hmem, hid⟩ := h.resolved id item' hget
      exact ⟨List.mem_append_left _ hmem, hid⟩
    · intro n call value hcall hsync hphase
      obtain ⟨item', hmem, hdescends⟩ := h.returned n call value hcall hsync hphase
      exact ⟨item', List.mem_append_left _ hmem, hdescends⟩

theorem calls_deliver (s : PipeState) (item : Sent) (dest : Destination) :
    (s.deliver item dest).calls = s.calls := by
  cases dest <;> rfl

/-- A call may go on to any phase, when the value that it returns is accounted for. -/
theorem Accounted.setPhase (h : s.Accounted) {n : ℕ} {call : Call} (hcall : s.calls[n]? = some call)
    {phase : CallPhase} (hphase : call.sync → ∀ value, phase = .returned value →
      ∃ item ∈ s.sink, item.DescendsFrom n ∧ item.frame.data = .ok value) :
    (s.setPhase n call phase).Accounted := by
  have hcontinues : Continues s.calls (s.setPhase n call phase).calls := continues_set hcall phase
  have hback : ∀ {m call'}, (s.setPhase n call phase).calls[m]? = some call' →
      (m = n ∧ call' = { call with phase := phase }) ∨ s.calls[m]? = some call' := by
    intro m call' hget
    by_cases heq : n = m
    · subst heq
      have hself : (s.setPhase n call phase).calls[n]? = some { call with phase := phase } :=
        List.getElem?_set_self (List.getElem?_eq_some_iff.mp hcall).1
      exact Or.inl ⟨rfl, Option.some.inj (hget.symm.trans hself)⟩
    · exact Or.inr ((List.getElem?_set_ne heq).symm.trans hget)
  -- the frame at a place is the one that was there
  have hframe : ∀ {m : ℕ} {call' : Call}, (s.setPhase n call phase).calls[m]? = some call' →
      ∃ call₀ : Call, s.calls[m]? = some call₀ ∧ call₀.pipeExecutionId = call'.pipeExecutionId := by
    intro m call' hget
    rcases hback hget with ⟨rfl, rfl⟩ | hget
    · exact ⟨call, hcall, rfl⟩
    · exact ⟨call', hget, rfl⟩
  constructor
  · intro m k call₁ call₂ h₁ h₂ hid
    obtain ⟨call₁', h₁, hid₁⟩ := hframe h₁
    obtain ⟨call₂', h₂, hid₂⟩ := hframe h₂
    exact h.distinct m k call₁' call₂' h₁ h₂ (hid₁.trans (hid.trans hid₂.symm))
  · exact fun q item hitem => (h.queued q item hitem).continues hcontinues
  · exact fun item hitem => (h.sunk item hitem).continues hcontinues
  · exact fun w hw item left hsending => (h.sending w hw item left hsending).continues hcontinues
  · intro w hw hid
    obtain ⟨item, hgot, howns⟩ := h.carried w hw hid
    exact ⟨item, hgot, howns.continues hcontinues⟩
  · exact h.resolved
  · intro m call' value hget hsync hreturned
    rcases hback hget with ⟨rfl, rfl⟩ | hget
    · exact hphase hsync value hreturned
    · exact h.returned m call' value hget hsync hreturned

/-- A worker may change in any way that keeps its own frames accounted for. -/
theorem Accounted.setWorker (h : s.Accounted) (w : ℕ) {worker : PipeWorker}
    (hsending : ∀ item left, worker.sending = some (item, left) → Honest s.calls item)
    (hcarried : worker.currentPipeExecutionId.truthy →
      ∃ item, worker.got = some item ∧ Owns s.calls worker.currentPipeExecutionId item) :
    (s.setWorker w worker).Accounted := by
  refine { h with sending := ?_, carried := ?_ }
  · intro worker' hworker' item left hitem
    rcases List.mem_or_eq_of_mem_set hworker' with hold | rfl
    · exact h.sending worker' hold item left hitem
    · exact hsending item left hitem
  · intro worker' hworker' hid
    rcases List.mem_or_eq_of_mem_set hworker' with hold | rfl
    · exact h.carried worker' hold hid
    · exact hcarried hid

theorem Accounted.monitorSink (h : s.Accounted) {item : Sent} (hitem : item ∈ s.sink) :
    (s.monitorSink item).Accounted := by
  unfold PipeState.monitorSink
  split
  · rename_i hid
    split
    · exact { h with }
    · exact { h with }
    · refine { h with resolved := ?_ }
      intro id item' hget
      by_cases heq : id = item.pipeExecutionId
      · subst heq
        rw [Dict.get?_set_self] at hget
        obtain rfl := Option.some.inj (Option.some.inj hget)
        exact ⟨hitem, rfl, hid⟩
      · rw [Dict.get?_set_of_ne _ _ heq] at hget
        exact h.resolved id item' hget
  · exact { h with }

theorem Accounted.startCall (h : s.Accounted) {sync : Bool} {data : EmitData} {uuid : String}
    (hids : s.DistinctIds c (.emit sync data uuid)) : (s.startCall c sync data uuid).Accounted := by
  unfold PipeState.startCall
  cases hframe : generatePipeFrame c data uuid with
  | error e => exact h
  | ok frame =>
    have hnew : ∀ call ∈ s.calls, call.pipeExecutionId ≠ frame.pipeExecutionId := by
      have hids' := hids frame (by rw [hframe]; rfl)
      exact hids'.2
    -- a new call whose id is that of no other and which has not returned
    have hadd : ∀ call : Call, call.frame = frame → (∀ value, call.phase ≠ .returned value) →
        ({ s with calls := s.calls ++ [call] } : PipeState).Accounted := by
      intro call hcall hphase
      have hcontinues := continues_append s.calls [call]
      have hback : ∀ {m : ℕ} {call' : Call}, (s.calls ++ [call])[m]? = some call' →
          s.calls[m]? = some call' ∨ (m = s.calls.length ∧ call' = call) := by
        intro m call' hget
        rcases Nat.lt_or_ge m s.calls.length with hlt | hge
        · exact Or.inl ((List.getElem?_append_left hlt).symm.trans hget)
        · rw [List.getElem?_append_right hge, List.getElem?_singleton] at hget
          split at hget
          · exact Or.inr ⟨by omega, (Option.some.inj hget).symm⟩
          · cases hget
      constructor
      · intro m k call₁ call₂ h₁ h₂ hid
        rcases hback h₁ with hold₁ | ⟨rfl, rfl⟩
        · rcases hback h₂ with hold₂ | ⟨-, rfl⟩
          · exact h.distinct m k call₁ call₂ hold₁ hold₂ hid
          · rw [Call.pipeExecutionId, Call.pipeExecutionId, hcall] at hid
            exact absurd hid (hnew call₁ (List.mem_of_getElem? hold₁))
        · rcases hback h₂ with hold₂ | ⟨rfl, -⟩
          · rw [Call.pipeExecutionId, Call.pipeExecutionId, hcall] at hid
            exact absurd hid.symm (hnew call₂ (List.mem_of_getElem? hold₂))
          · rfl
      · exact fun q item hitem => (h.queued q item hitem).continues hcontinues
      · exact fun item hitem => (h.sunk item hitem).continues hcontinues
      · exact fun w hw item left hsending => (h.sending w hw item left hsending).continues hcontinues
      · intro w hw hid
        obtain ⟨item, hgot, howns⟩ := h.carried w hw hid
        exact ⟨item, hgot, howns.continues hcontinues⟩
      · exact h.resolved
      · intro m call' value hget hsync hreturned
        rcases hback hget with hget | ⟨-, rfl⟩
        · exact h.returned m call' value hget hsync hreturned
        · exact absurd hreturned (hphase value)
    dsimp only
    split
    · have hcall := hadd { sync := sync, frame := frame, phase := .polling } rfl
        (fun _ => CallPhase.noConfusion)
      refine { hcall with resolved := ?_ }
      intro id item hget
      by_cases heq : id = frame.pipeExecutionId
      · subst heq
        rw [Dict.get?_set_self] at hget
        cases hget
      · rw [Dict.get?_set_of_ne _ _ heq] at hget
        exact h.resolved id item hget
    · exact hadd _ rfl fun _ => CallPhase.noConfusion

/-- The value that `emit_sync` finds in its future is the data of a sink frame under its own id. -/
theorem Accounted.wake (h : s.Accounted) {n : ℕ} {call : Call} (hcall : s.calls[n]? = some call)
    {value : PyVal} (hvalue : s.wakePhase call = .returned value) :
    ∃ item ∈ s.sink, item.DescendsFrom n ∧ item.frame.data = .ok value := by
  unfold wakePhase at hvalue
  split at hvalue
  · cases hvalue
  · cases hvalue
  · rename_i item hget
    obtain ⟨hmem, hid, htruthy⟩ := h.resolved _ item hget
    obtain ⟨m, call', hcall', hid', hdescends⟩ := h.sunk item hmem (hid ▸ htruthy)
    -- the call that the frame descends from has the same id, so it is this one
    obtain rfl := h.distinct m n call' call hcall' hcall (hid'.trans hid)
    refine ⟨item, hmem, hdescends, ?_⟩
    cases hdata : item.frame.data with
    | ok v =>
      rw [hdata] at hvalue
      rw [CallPhase.returned.inj hvalue]
    | error e =>
      rw [hdata] at hvalue
      cases hvalue

theorem pipeExecutionId_of_setPipeExeId {frame frame' : DataFrame} {id : PyVal}
    (h : frame.setPipeExeId c id = .ok frame') : frame'.pipeExecutionId = id := by
  obtain ⟨field, hfield, hset⟩ := except_bind_eq_ok_iff.mp h
  obtain ⟨dType, -, hpure⟩ := except_bind_eq_ok_iff.mp hfield
  obtain rfl := Except.ok.inj hpure
  obtain rfl := Except.ok.inj hset
  show (((frame.fields.set "pid" _).get? "pid").map DataField.value).getD .none = id
  rw [Dict.get?_set_self]
  rfl

/-- A frame that a worker emits descends from where its execution id comes from. -/
theorem Accounted.emits (h : s.Accounted) {w : ℕ} {worker : PipeWorker}
    (hworker : s.workers[w]? = some worker) {data : EmitData} (hown : s.NoForeignIds c (.workerEmit w data))
    {frame : DataFrame} (hframe : worker.stamped c data = .ok frame) :
    Honest s.calls (worker.emits frame) := by
  obtain ⟨bare, hbare, hstamp⟩ := except_bind_eq_ok_iff.mp hframe
  have hid : (worker.emits frame).pipeExecutionId = frame.pipeExecutionId := by
    unfold PipeWorker.emits
    split <;> rfl
  intro htruthy
  rw [hid] at htruthy ⊢
  by_cases hcurrent : worker.currentPipeExecutionId.truthy
  · rw [if_pos hcurrent] at hstamp
    rw [pipeExecutionId_of_setPipeExeId hstamp]
    obtain ⟨parent, hgot, n, call, hcall, hcallid, hdescends⟩ :=
      h.carried worker (List.mem_of_getElem? hworker) hcurrent
    refine ⟨n, call, hcall, hcallid, ?_⟩
    rw [PipeWorker.emits, hgot]
    exact hdescends
  · rw [if_neg hcurrent] at hstamp
    obtain rfl := Except.ok.inj hstamp
    exact absurd (hown worker hworker bare (by rw [hbare]; rfl) htruthy) hcurrent

theorem Accounted.starts (h : s.Accounted) {w : ℕ} {worker : PipeWorker}
    (hworker : s.workers[w]? = some worker) {data : EmitData}
    (hown : s.NoForeignIds c (.workerEmit w data)) :
    (s.setWorker w (worker.starts c data)).Accounted := by
  have hmem := List.mem_of_getElem? hworker
  have hsame : (s.setWorker w worker).Accounted :=
    h.setWorker w (h.sending worker hmem) (h.carried worker hmem)
  unfold PipeWorker.starts
  cases hframe : worker.stamped c data with
  | error e => exact hsame
  | ok frame =>
    cases hdests : destinations worker.outQs worker.hasSink with
    | nil => exact hsame
    | cons dest dests =>
      refine h.setWorker w ?_ (h.carried worker hmem)
      rintro item left ⟨⟩
      exact h.emits hworker hown hframe

theorem Accounted.gets (h : s.Accounted) {w : ℕ} {worker : PipeWorker}
    (hworker : s.workers[w]? = some worker) {q : String} {item : Sent} (hitem : item ∈ s.queues q) :
    (s.setWorker w (worker.gets item)).Accounted := by
  refine h.setWorker w (h.sending worker (List.mem_of_getElem? hworker)) ?_
  intro hcurrent
  refine ⟨item, rfl, ?_⟩
  unfold PipeWorker.gets at hcurrent ⊢
  dsimp only at hcurrent ⊢
  split at hcurrent
  · rename_i hid
    rw [if_pos hid]
    exact h.queued q item hitem hid
  · cases hcurrent

theorem Accounted.workerPut (h : s.Accounted) {w : ℕ} {worker : PipeWorker}
    (hworker : s.workers[w]? = some worker) {item : Sent} {dest : Destination} {left : List Destination}
    (hsending : worker.sending = some (item, dest :: left)) :
    ((s.deliver item dest).setWorker w
      { worker with sending := if left = [] then none else some (item, left) }).Accounted := by
  have hmem := List.mem_of_getElem? hworker
  have hitem := h.sending worker hmem item (dest :: left) hsending
  refine (h.deliver hitem dest).setWorker w ?_ ?_
  · intro item' left' hsending'
    rw [calls_deliver]
    dsimp only at hsending'
    split at hsending'
    · cases hsending'
    · obtain ⟨rfl, -⟩ := Prod.mk.inj (Option.some.inj hsending')
      exact hitem
  · rw [calls_deliver]
    exact h.carried worker hmem

theorem Accounted.put (h : s.Accounted) {n : ℕ} {call : Call} (hcall : s.calls[n]? = some call)
    (dest : Destination) (left : List Destination) :
    ((s.deliver (.root n call.frame) dest).setPhase n call
      (if left = [] then call.sent else .sending left)).Accounted := by
  have hroot : Honest s.calls (.root n call.frame) := fun _ => ⟨n, call, hcall, rfl, rfl⟩
  refine (h.deliver hroot dest).setPhase ((congrArg (·[n]?) (calls_deliver s _ dest)).trans hcall) ?_
  intro hsync value hphase
  split at hphase
  · rw [Call.sent, if_pos hsync] at hphase
    cases hphase
  · cases hphase

/-- Every step keeps the accounts. -/
theorem Accounted.step (h : s.Accounted) {e : PipeStep} (hids : s.DistinctIds c e)
    (hown : s.NoForeignIds c e) (hstep : pipeStep c s e = some s') : s'.Accounted := by
  cases pipeStep_turns hstep with
  | emit sync data uuid => exact h.startCall hids
  | phase hcall hreturned =>
    exact h.setPhase hcall fun _ value hvalue => h.wake hcall (hreturned value hvalue)
  | put hcall => exact h.put hcall _ _
  | readSink hitem => exact h.monitorSink (List.mem_of_getElem? hitem)
  | get hworker hitem => exact h.gets hworker (List.mem_of_getElem? hitem)
  | workerEmit hworker => exact h.starts hworker hown
  | workerPut hworker hsending => exact h.workerPut hworker hsending
  | workerStop hworker =>
    have hcarried := h.carried _ (List.mem_of_getElem? hworker)
    exact h.setWorker _ (fun _ _ hnone => nomatch hnone) hcarried

/-- In every run whose calls have distinct ids and whose workers emit no foreign ids, what `emit_sync`
returns, but for the `False` of a refused frame, comes from its own frame. -/
theorem results_go_back (hfresh : s.Fresh) {events : List PipeStep}
    (hids : Along (pipeStep c) (DistinctIds c) s events)
    (hown : Along (pipeStep c) (NoForeignIds c) s events)
    (hrun : runFrom (pipeStep c) s events = some s') :
    s'.ResultsGoBack Call.received := by
  have haccounted : s'.Accounted := (hids.and hown).invariant
    (fun _ _ _ h hguard hstep => h.step hguard.1 hguard.2 hstep) hfresh.accounted hrun
  intro n call value hcall hsync hvalue
  have hphase : call.phase = .returned value := by
    unfold Call.received at hvalue
    split at hvalue
    · rename_i v hphase
      rw [hphase, Option.some.inj hvalue]
    · cases hvalue
  obtain ⟨item, hitem, hdescends, hdata⟩ := haccounted.returned n call value hcall hsync hphase
  exact ⟨item, hitem, hdescends, fun m hm => hdescends.unique hm, hdata⟩

/-! ## A pipe with one worker -/

/-- A pipe process whose only worker sends what it emits to the sink. -/
def oneWorker : PipeState where
  outQs := ["a"]
  queues _ := []
  sink := []
  workers := [{ inQs := ["a"], outQs := [], hasSink := true, currentPipeExecutionId := .none
                sending := none, got := none }]
  calls := []
  executingFrames := .empty
  monitor := none
  reads := 0

theorem oneWorker_fresh : oneWorker.Fresh where
  queues _ := rfl
  sink := rfl
  workers w hw := by
    rw [List.mem_singleton.mp hw]
    exact ⟨rfl, rfl, rfl⟩
  calls := rfl
  executingFrames := rfl
  monitor := rfl
  reads := rfl

/-- The worker answers 6 to the call's 5. -/
def answeredRun : List PipeStep :=
  [.emit true (.value (.int 5)) "x", .poll 0, .put 0 true, .get 0 "a" 0, .workerEmit 0 (.value (.int 6)),
    .workerPut 0 true, .readSink 0, .wake 0]

theorem results_go_back_answered :
    ∃ t, runFrom (pipeStep Codec.emptyObjects) oneWorker answeredRun = some t ∧
      t.ResultsGoBack Call.received ∧ ∃ call ∈ t.calls, call.result = some (.int 6) := by
  have hrun : (runFrom (pipeStep Codec.emptyObjects) oneWorker answeredRun).any
      (fun t => decide (∃ call ∈ t.calls, call.result = some (.int 6))) = true := by decide +kernel
  obtain ⟨t, ht, hanswer⟩ := (Option.any_eq_true _ _).mp hrun
  exact ⟨t, ht, results_go_back oneWorker_fresh (by decide +kernel) (by decide +kernel) ht,
    of_decide_eq_true hanswer⟩

/-- The pipe's queue has no room for the frame. -/
def refusedRun : List PipeStep := [.emit true (.value (.int 5)) "x", .poll 0, .put 0 false]

/-- A frame of 6 that carries the execution id of the call. -/
def foreignFrame : DataFrame :=
  (DataFrame.empty.setField { key := "d", value := .int 6, dType := DType.u32.value }).setField
    { key := "pid", value := .str "x", dType := DType.str.value }

/-- The worker, which has not got any frame, emits one under the id of the call. -/
def foreignRun : List PipeStep :=
  [.emit true (.value (.int 5)) "x", .poll 0, .put 0 true, .workerEmit 0 (.frame foreignFrame),
    .workerPut 0 true, .readSink 0, .wake 0]

/-- A refused call returns `False`, which no sink frame has brought; and a worker that manages execution
ids itself can answer with a frame that descends from no call. -/
theorem emit_sync_returns_other_values :
    (∃ t, runFrom (pipeStep Codec.emptyObjects) oneWorker refusedRun = some t ∧
      Along (pipeStep Codec.emptyObjects) (DistinctIds Codec.emptyObjects) oneWorker refusedRun ∧
      Along (pipeStep Codec.emptyObjects) (NoForeignIds Codec.emptyObjects) oneWorker refusedRun ∧
      ¬ t.ResultsGoBack Call.result) ∧
    ∃ t, runFrom (pipeStep Codec.emptyObjects) oneWorker foreignRun = some t ∧
      Along (pipeStep Codec.emptyObjects) (DistinctIds Codec.emptyObjects) oneWorker foreignRun ∧
      ¬ t.ResultsGoBack Call.received := by
  -- the call at the first place has returned a value, and no sink frame descends from it
  have hbreak : ∀ {t : PipeState} {returns : Call → Option PyVal} {value : PyVal},
      (t.calls[0]?.any fun call => decide (call.sync ∧ returns call = some value)) = true →
      (∀ item ∈ t.sink, ¬ item.DescendsFrom 0) → ¬ t.ResultsGoBack returns := by
    intro t returns value hcall hsink h
    obtain ⟨call, hget, hreturned⟩ := (Option.any_eq_true _ _).mp hcall
    obtain ⟨hsync, hvalue⟩ := of_decide_eq_true hreturned
    obtain ⟨item, hitem, hdescends, -⟩ := h 0 call value hget hsync hvalue
    exact hsink item hitem hdescends
  refine ⟨?_, ?_⟩
  · have hrun : (runFrom (pipeStep Codec.emptyObjects) oneWorker refusedRun).any (fun t => decide
        ((t.calls[0]?.any fun call => decide (call.sync ∧ call.result = some (.bool false))) = true ∧
          ∀ item ∈ t.sink, ¬ item.DescendsFrom 0)) = true := by decide +kernel
    obtain ⟨t, ht, hend⟩ := (Option.any_eq_true _ _).mp hrun
    obtain ⟨hcall, hsink⟩ := of_decide_eq_true hend
    exact ⟨t, ht, by decide +kernel, by decide +kernel, hbreak hcall hsink⟩
  · have hrun : (runFrom (pipeStep Codec.emptyObjects) oneWorker foreignRun).any (fun t => decide
        ((t.calls[0]?.any fun call => decide (call.sync ∧ call.received = some (.int 6))) = true ∧
          ∀ item ∈ t.sink, ¬ item.DescendsFrom 0)) = true := by decide +kernel
    obtain ⟨t, ht, hend⟩ := (Option.any_eq_true _ _).mp hrun
    obtain ⟨hcall, hsink⟩ := of_decide_eq_true hend
    exact ⟨t, ht, by decide +kernel, hbreak hcall hsink⟩

end PipeState

end Upipe
