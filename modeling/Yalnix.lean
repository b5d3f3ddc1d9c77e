import Yalnix.Kernel.NodeLists
import Yalnix.Lists.Iteration
import Yalnix.Lists.KernelLists
import Yalnix.Kernel.ProgramMemory
import Yalnix.Memory.ArgumentBlock
import Yalnix.Memory.FailedBreak
import Yalnix.Memory.FailedFork
import Yalnix.Memory.FatalFaults
import Yalnix.Memory.ForkMemory
import Yalnix.Memory.GuardPage
import Yalnix.Memory.IdentityMap
import Yalnix.Memory.ImageLayout
import Yalnix.Memory.ImageSafety
import Yalnix.Memory.KernelBreak
import Yalnix.Memory.LoadedImage
import Yalnix.Memory.LostFrames
import Yalnix.Memory.MemoryFaults
import Yalnix.Memory.ProgramPages
import Yalnix.Memory.Tlb
import Yalnix.Memory.UserContexts
import Yalnix.Pipe.Stream
import Yalnix.Pipe.Blocking
import Yalnix.Pipe.Waiters
import Yalnix.Process.Delay
import Yalnix.Process.ExecResult
import Yalnix.Process.Idle
import Yalnix.Process.ProcessTree
import Yalnix.Sync.Subscripts
import Yalnix.Terminal.Output
import Yalnix.Terminal.Readers
import Yalnix.Terminal.Transmission
import Yalnix.Process.WaitTurns
import Yalnix.Process.DelayTurns
import Yalnix.Memory.Protection
import Yalnix.Safety.Booting
import Yalnix.Process.Resumption
import Yalnix.Process.ForkTurns
import Yalnix.Terminal.Delivery
import Yalnix.Memory.Isolation
