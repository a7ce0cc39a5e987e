import Upipe.Common.RingBuffer
import Upipe.Common.PyVal
import Upipe.Common.Python
import Upipe.Common.Runs
import Upipe.Common.Copies
import Upipe.Common.Argmax
import Upipe.Common.Dict
import Upipe.Common.Line
import Upipe.Common.Linearization
import Upipe.Common.Json
import Upipe.Common.Md5
import Upipe.Common.PyJson
import Upipe.Node.Manager.Monitor
import Upipe.Node.Manager.Attach
import Upipe.Node.Manager.Limits
import Upipe.Node.Manager.Untouched
import Upipe.Node.Manager.Completion
import Upipe.Node.Manager.Output
import Upipe.Node.Manager.Scaling
import Upipe.Node.Manager.Termination
import Upipe.Node.Manager.Wiring
import Upipe.Node.Client
import Upipe.Node.Served
import Upipe.Node.Manager.PidLog
import Upipe.Node.Manager.Broadcast
import Upipe.Entities.DataFrame.Lists
import Upipe.Entities.DataFrame.Registry
import Upipe.Entities.DataFrame.Sendable
import Upipe.Entities.DataFrame.Tuples
import Upipe.Entities.MemQueue.Fifo
import Upipe.Entities.MemQueue.Locks
import Upipe.Entities.MemQueue.RoundTrip
import Upipe.Entities.MemQueue.Counters
import Upipe.Entities.MemQueue.Consumers
import Upipe.Entities.MemQueue.Admission
import Upipe.Entities.MemQueue.Attached
import Upipe.Entities.MemQueue.FailedGet
import Upipe.Entities.MemQueue.Shared
import Upipe.Entities.MemQueue.Processes
import Upipe.Entities.Worker.Emit
import Upipe.Entities.Worker.EmitSync
import Upipe.Entities.Worker.Identity
import Upipe.Entities.Worker.Inputs
import Upipe.Entities.Pipe.Sink
import Upipe.Entities.Pipe.Client
import Upipe.Entities.Pipe.Graph
import Upipe.Entities.Pipe.Line
import Upipe.Entities.Pipe.Network
import Upipe.Node.Manager.Topology
import Upipe.Node.RemoteQueue
import Upipe.Entities.Pipe.Declared
import Upipe.Pipeview.Pipe
