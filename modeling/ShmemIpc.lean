import ShmemIpc.Library.Verified
import ShmemIpc.Execution.Wild
import ShmemIpc.Ring.Hostile
import ShmemIpc.Ring.Failure
import ShmemIpc.Ring.Framing
import ShmemIpc.Ring.Backpressure
import ShmemIpc.Execution.Oracle
import ShmemIpc.Execution.Frame
import ShmemIpc.Execution.Waiting
import ShmemIpc.Ring.Delivery
import ShmemIpc.Ring.Copy
import ShmemIpc.Ring.Run
import ShmemIpc.Ring.Cancel
import ShmemIpc.Execution.Operation
import ShmemIpc.Header.Shared
import ShmemIpc.Header.Open
import ShmemIpc.Header.Operations
import ShmemIpc.Header.Agreement
import ShmemIpc.Execution.Run
import ShmemIpc.Header.Decision
import ShmemIpc.Header.Connect
import ShmemIpc.Header.Exclusion
import ShmemIpc.Header.Terminal
import ShmemIpc.Process.Comm
import ShmemIpc.Header.Create
import ShmemIpc.Library.Ends
import ShmemIpc.Execution.Surroundings
import ShmemIpc.Ring.Batch
import ShmemIpc.Ring.Agreement
import ShmemIpc.Windows.Wakeup
import ShmemIpc.Handshake.Ends
import ShmemIpc.Windows.Listener
import ShmemIpc.Execution.Prompt
