import Upipe.Common.Dict
import Upipe.Common.PyVal

/-!
# API entities

The records that the pipe process, the node manager and the workers exchange, and the status
enumerations of pipes, processors and worker instances.
-/

namespace Upipe

open Upipe.Common

/-- `PipeExecutionStatus`. -/
inductive PipeExecutionStatus where
  | init | registered | ready | paused | running | completed | pendingTermination
deriving DecidableEq, Repr

/-- `PipeActionType`. -/
inductive PipeActionType where
  | start | restart | pause | terminate
deriving DecidableEq, Repr

/-- `ProcessorExecutionStatus`. -/
inductive ProcessorExecutionStatus where
  | init | ready | paused | running | completed | pendingTermination
deriving DecidableEq, Repr

/-- `InstanceState`. -/
inductive InstanceState where
  | launched | ready | running | paused | done | pendingTermination
deriving DecidableEq, Repr

/-- `InstanceType`. -/
inductive InstanceType where
  | process | subProcess
deriving DecidableEq, Repr

/-- `APIQueue`. -/
structure APIQueue where
  id : String
  name : String
  fromP : String
  toP : String
  size : ℤ
  host : Option String := none
deriving DecidableEq, Repr

/-- `APIProcSettings`. -/
structure APIProcSettings where
  priority : ℤ := 1
  autoscale : ℤ := 1
  inputBufferSize : ℤ := 1000 * 4096
  host : Option String := none
deriving DecidableEq, Repr

/-- `APIProcessor`. -/
structure APIProcessor where
  id : String
  name : String
  entry : Option String := none
  function : Option String := none
  interpreter : Option String := none
  settings : APIProcSettings := {}
  config : PyVal := .dict []
deriving DecidableEq, Repr

/-- `SINK_QUEUE_ID`. -/
def sinkQueueId : String := "pipe-sink"

/-- `APIPipe`. -/
structure APIPipe where
  id : String
  name : String
  root : APIProcessor
  sink : APIQueue
  processors : Dict String APIProcessor := .empty
  queues : Dict String APIQueue := .empty

end Upipe
