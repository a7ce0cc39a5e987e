import Upipe.Entities.DataFrame.Frame
import Upipe.Entities.MemQueue.Outcomes

/-!
# The worker's output side

`Worker` keeps the queues that a worker process writes to and what stamps its frames. `emit` sends one
value to every output queue, or to the pipe's sink when there is no output queue.

A frame object that the caller passes in gets its execution id set in place. Setting the same id again
changes nothing, so the model stamps a copy. The clock that each queue reads during its `put` is a
function of the queue.
-/

namespace Upipe

open Upipe.Common

/-- The attributes of `Worker` that `emit` and `emit_sync` read or change. -/
structure Worker where
  outQs : List MemQueue
  sinkQ : Option MemQueue
  processedCounter : ℕ
  currentPipeExecutionId : PyVal

/-- What a caller may emit: a ready frame, or a value that becomes the default field of a new one. -/
inductive EmitData where
  | frame (frame : DataFrame)
  | value (data : PyVal)

namespace Worker

section Emit

variable (c : Codec) (putQ : MemQueue → DataFrame → Except PyError Bool) (clock : String → UInt64)

/-- The queue lives on another host. -/
def Remote (q : MemQueue) : Prop := q.host.getD "" ≠ ""

instance (q : MemQueue) : Decidable (Remote q) := inferInstanceAs (Decidable (_ ≠ _))

/-- The frame of some data, before it is stamped. -/
def frameOf : EmitData → Except PyError DataFrame
  | .frame frame => .ok frame
  | .value data => DataFrame.ofData c data

/-- The frame that `emit` sends. -/
def stampedFrame (w : Worker) (data : EmitData) : Except PyError DataFrame := do
  let frame ← frameOf c data
  if w.currentPipeExecutionId.truthy then frame.setPipeExeId c w.currentPipeExecutionId
  else pure frame

/-- `_enqueue` on one queue. -/
def enqueue (frame : DataFrame) (q : MemQueue) : EStateM.Result PyError MemQueue Bool :=
  if Remote q then
    match putQ q frame with
    | .ok added => .ok added q
    | .error e => .error e q
  else q.put (frame.toByteArr c) (clock q.qid)

/-- Put a queue back in front of those that come behind it. -/
def consState (q : MemQueue) :
    EStateM.Result PyError (List MemQueue) Bool → EStateM.Result PyError (List MemQueue) Bool
  | .ok success qs => .ok success (q :: qs)
  | .error e qs => .error e (q :: qs)

/-- The loop of `emit`: `success = success and await self._enqueue(q, frame)`. -/
def broadcast (frame : DataFrame) :
    List MemQueue → Bool → EStateM.Result PyError (List MemQueue) Bool
  | [], success => .ok success []
  | q :: qs, true =>
      match enqueue c putQ clock frame q with
      | .ok added q' => consState q' (broadcast frame qs added)
      | .error e q' => .error e (q' :: qs)
  | q :: qs, false => consState q (broadcast frame qs false)

/-- `emit`. The counter goes up before the loop over the output queues. -/
def emit (data : EmitData) : PyM Worker Bool := fun w =>
  match w.stampedFrame c data with
  | .error e => .error e w
  | .ok frame =>
    match w.outQs, w.sinkQ with
    | [], some sink =>
      match enqueue c putQ clock frame sink with
      | .ok true sink' =>
          .ok true { w with sinkQ := some sink', processedCounter := w.processedCounter + 1 }
      | .ok false sink' => .ok false { w with sinkQ := some sink' }
      | .error e sink' => .error e { w with sinkQ := some sink' }
    | [], none => .ok false w
    | _ :: _, _ =>
      match broadcast c putQ clock frame w.outQs true with
      | .ok success qs =>
          .ok success { w with outQs := qs, processedCounter := w.processedCounter + 1 }
      | .error e qs => .error e { w with outQs := qs, processedCounter := w.processedCounter + 1 }

end Emit

end Worker

end Upipe
