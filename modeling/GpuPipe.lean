import GpuPipe.Library.Checked
import GpuPipe.Library.Mutex
import GpuPipe.Sys.Takeover
import GpuPipe.Sys.Owner
import GpuPipe.Ring.Capacity
import GpuPipe.Ring.Crash
import GpuPipe.Ring.Heal
import GpuPipe.Ring.Undo
import GpuPipe.Ring.Unreadable
import GpuPipe.Store.Conservation
import GpuPipe.Store.NoOverlap
import GpuPipe.Store.Cap
import GpuPipe.Store.Sizing
import GpuPipe.Store.Teardown
import GpuPipe.Pipeline.Completion
import GpuPipe.Pipeline.Pull
import GpuPipe.Pipeline.Stop
import GpuPipe.Pipeline.Push
import GpuPipe.Pipeline.Tail
import GpuPipe.Pipeline.Undecodable
import GpuPipe.Transport.Bound
import GpuPipe.Transport.Requeue
import GpuPipe.Transport.Transparency
import GpuPipe.Transport.Unsendable
import GpuPipe.Lifecycle.Follow
import GpuPipe.Lifecycle.Monitor
import GpuPipe.Lifecycle.Affinity
import GpuPipe.Lifecycle.Drain
import GpuPipe.Lifecycle.Hang
import GpuPipe.Lifecycle.Start
import GpuPipe.Scavenge.Hold
import GpuPipe.Scavenge.Resume
import GpuPipe.Sequential.Agreement
import GpuPipe.Sequential.Flush
import GpuPipe.Stats.Inert
import GpuPipe.Utils.Retrieve
import GpuPipe.Utils.AsyncPool
import GpuPipe.Lifecycle.Slots
import GpuPipe.Lifecycle.Footprint
import GpuPipe.Lifecycle.Crashes
import GpuPipe.Stats.Collect
import GpuPipe.Sys.Wakeup
import GpuPipe.Ring.Wakeup
import GpuPipe.Ring.Deadlock
import GpuPipe.Ring.Teardown
import GpuPipe.Store.Leaks
import GpuPipe.Store.Registered
import GpuPipe.Transport.Views
import GpuPipe.Transport.Wire
import GpuPipe.Transport.Serve
import GpuPipe.Scavenge.Reasons
