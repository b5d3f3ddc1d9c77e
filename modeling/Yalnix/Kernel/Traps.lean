import Yalnix.Kernel.ProcessCalls
import Yalnix.Kernel.SyncCalls
import Yalnix.Kernel.TtyCalls

/-!
# Traps

The handlers of `traphandlers.c`.  A system call carries its arguments as the
kernel receives them, with user buffers given by their bytes.
-/

namespace Yalnix

inductive Syscall where
  /-- With the pid that `helper_new_pid` will hand out. -/
  | fork (newPid : Nat)
  | exec (args : Kernel.ExecArgs)
  | exit (exitCode : Int)
  | wait (statusPtrNonNull : Bool)
  | getPid
  | brk (addr : Nat)
  | delay (clockTicks : Int)
  | ttyRead (ttyId len : Int)
  | ttyWrite (ttyId : Int) (buf : Buffer) (len : Int)
  | pipeInit (pipeIdpNonNull : Bool)
  | pipeRead (pipeId : Int) (bufNonNull : Bool) (len : Int)
  | pipeWrite (pipeId : Int) (buf : Option Buffer) (len : Int)
  | lockInit (lockIdpNonNull : Bool)
  | acquire (lockId : Int)
  | release (lockId : Int)
  | cvarInit (cvarIdpNonNull : Bool)
  | cvarSignal (cvarId : Int)
  | cvarBroadcast (cvarId : Int)
  | cvarWait (cvarId lockId : Int)
  | reclaim (id : Int)

inductive Trap where
  | kernel (call : Syscall)
  | clock
  | illegal
  | math
  /-- With the word that a subscript beyond the page table happens to read. -/
  | memory (addr : Nat) (beyondValid : Bool)
  | ttyReceive (ttyId : Nat) (bytes : List UInt8)
  | ttyTransmit (ttyId : Nat)

namespace Kernel

def trapKernelHandler (s : Kernel) : Syscall → Kernel
  | .fork newPid => s.kernelFork newPid
  | .exec args => s.execCase args
  | .exit exitCode => s.kernelExit exitCode
  | .wait nonNull => s.kernelWait nonNull
  | .getPid => s.ret (s.pcb.pid s.activePCB)
  | .brk addr => s.kernelBrk addr
  | .delay clockTicks => s.kernelDelay clockTicks
  | .ttyRead ttyId len => s.kernelTtyRead ttyId len
  | .ttyWrite ttyId buf len => s.kernelTtyWrite ttyId buf len
  | .pipeInit nonNull => s.kernelPipeInit nonNull
  | .pipeRead pipeId nonNull len => s.kernelPipeRead pipeId nonNull len
  | .pipeWrite pipeId buf len => s.kernelPipeWrite pipeId buf len
  | .lockInit nonNull => s.kernelLockInit nonNull
  | .acquire lockId => s.kernelAcquire lockId
  | .release lockId => (s.kernelRelease lockId).2.ret (s.kernelRelease lockId).1
  | .cvarInit nonNull => s.kernelCvarInit nonNull
  | .cvarSignal cvarId => s.kernelCvarSignal cvarId
  | .cvarBroadcast cvarId => s.kernelCvarBroadcast cvarId
  | .cvarWait cvarId lockId => s.kernelCvarWait cvarId lockId
  | .reclaim id => s.kernelReclaim id

/-- `TrapClockHandler` switches first; its scan of `blocked_q` runs when the
preempted process resumes. -/
def trapClockHandler (s : Kernel) : Kernel :=
  let s := { s with globalClockTicks := s.globalClockTicks + 1 }
  s.swapProcess (some .readyQ) .trapClockHandler

/-- The scan of `blocked_q` at the end of `TrapClockHandler`. -/
def blockedScan : Nat → Kernel → Kernel
  | 0, s => s
  | limit + 1, s =>
      match s.blockedQ with
      | [] => blockedScan limit s
      | p :: rest =>
          let checked := (s.setBlockedQ rest).checkBlocked p
          blockedScan limit (checked.2.queueAdd checked.1 p)

/-- `TrapIllegalHandler` and `TrapMathHandler` have the same body. -/
def trapFaultHandler (s : Kernel) : Kernel :=
  let active := s.activePCB
  ((s.setExitCode active Rc.error).setTerminated active).swapProcess
    (some .defunctQ) .trapFault

def trapIllegalHandler (s : Kernel) : Kernel := s.trapFaultHandler

def trapMathHandler (s : Kernel) : Kernel := s.trapFaultHandler

/-- The page index of a faulting address. -/
def faultTarget (addr : Nat) : Int :=
  downToPage (toInt32 addr) / pageSize - vmem1BasePage

/-- Whether the page at the target reads as valid; beyond the table the read
leaves the array. -/
def faultValid (s : Kernel) (target : Int) (beyondValid : Bool) : Bool :=
  if (userPtSize : Int) ≤ target then beyondValid
  else (s.pcb.userPageTable s.activePCB target.toNat).valid

def trapMemoryHandler (s : Kernel) (addr : Nat) (beyondValid : Bool) :
    Kernel :=
  let active := s.activePCB
  let stackIndex := s.pcb.userStackPtIndex active
  let target := faultTarget addr
  if target < 0 ∨ s.faultValid target beyondValid then s.kernelExit Rc.error
  else if (userPtSize : Int) < stackIndex ∧ target < stackIndex then
    s.toUndefined
  else
    let grown := growPages target.toNat (stackIndex - target).toNat
      (s.pcb.userPageTable active) s.pfnList
    ((s.setUserPageTable active grown.2.1).setPfnList grown.2.2).toUser

/-- The handler of a trap taken in user mode. -/
def handle (s : Kernel) : Trap → Kernel
  | .kernel call => s.trapKernelHandler call
  | .clock => s.trapClockHandler
  | .illegal => s.trapIllegalHandler
  | .math => s.trapMathHandler
  | .memory addr beyondValid => s.trapMemoryHandler addr beyondValid
  | .ttyReceive t bytes => s.trapTTYReceiveHandler t bytes
  | .ttyTransmit t => s.trapTTYTransmitHandler t

/-- The active process goes on inside the kernel where it was switched away. -/
def resume (s : Kernel) : Kernel :=
  match s.pcb.kernelContext s.activePCB with
  | .kernelStart => s.toUser
  | .kernelFork => s.ret 0
  | .trapClockHandler => (blockedScan s.blockedQ.length s).toUser
  | .kernelExit => s.toUser
  | .trapFault => s.toUser
  | .kernelWait setCodePid => s.kernelWaitResume setCodePid
  | .kernelDelay => s.ret 0
  | .kernelTtyRead t len => s.ttyReadFinish t len
  | .kernelTtyWrite t buf len bytesLeft bytesWritten =>
      ttyWriteLoop t buf len bytesLeft bytesLeft bytesWritten s
  | .kernelPipeRead p len => s.pipeReadLoop p len
  | .kernelPipeWrite p buf len => s.pipeWriteLoop p buf len
  | .kernelAcquire lockId => s.kernelAcquireResume lockId
  | .kernelCvarWait lockId => s.kernelAcquire lockId

end Kernel

end Yalnix
