import Yalnix.Kernel.Hardware

/-!
# The kernel state

PCBs, pipes and queues are identified by address.  The fields of `pcb_t` are
kept as one map per field, so that writing one field of one PCB leaves every
other map as it is.  Storage that the kernel frees is never handed out again,
and `malloc` does not fail.

A process that is switched away inside the kernel resumes where it stopped.
`KernelContext` names these places, with the locals the code still needs there.
-/

namespace Yalnix

abbrev PcbPtr := Nat

abbrev PipePtr := Nat

structure UserContext where
  sp : Int
  pc : Int
  deriving DecidableEq, Repr

/--
Where a suspended process goes on.  Both sleeps of `KernelTtyWrite` go on at the
head of its outer loop, and both sleeps of `KernelPipeRead` at its `while`.
-/
inductive KernelContext where
  | kernelStart
  | kernelFork
  | trapClockHandler
  | kernelExit
  | trapFault
  | kernelWait (setCodePid : Nat)
  | kernelDelay
  | kernelTtyRead (ttyId len : Nat)
  | kernelTtyWrite (ttyId : Nat) (buf : Buffer)
      (len bytesLeft bytesWritten : Nat)
  | kernelPipeRead (pipe : PipePtr) (len : Nat)
  | kernelPipeWrite (pipe : PipePtr) (buf : Buffer) (len : Nat)
  | kernelAcquire (lockId : Int)
  | kernelCvarWait (lockId : Int)

/-- The fields of `pcb_t`, each as a map from PCB addresses. -/
structure PcbTable where
  pid : PcbPtr → Nat
  ppid : PcbPtr → Nat
  numChildren : PcbPtr → Int
  clockTicks : PcbPtr → Int
  exitCode : PcbPtr → Int
  userContext : PcbPtr → UserContext
  kernelContext : PcbPtr → KernelContext
  userPageTable : PcbPtr → Nat → Pte
  userStackPtIndex : PcbPtr → Int
  userHeapPtIndex : PcbPtr → Int
  userTextPtIndex : PcbPtr → Int
  userDataPtIndex : PcbPtr → Int
  kernelStackPt : PcbPtr → Nat → Pte
  blockedCode : PcbPtr → Int
  ttyTerminal : PcbPtr → Nat

structure Pipe where
  buf : Nat → UInt8
  plen : Nat
  id : Int
  beingUsed : Bool
  queue : List PcbPtr

/-- The queues that `SwapProcess` and `queue_add` are given. -/
inductive QueueRef where
  | readyQ
  | blockedQ
  | defunctQ
  | ttyReadQueue (ttyId : Nat)
  | lockAquireQueue (lockId : Int)
  | cvarWaitQueue (index : Int)
  deriving DecidableEq, Repr

/--
Where the machine is: running the active process in user mode, about to resume
the active process at its saved kernel context, stopped by `Halt`, or past an
access that C leaves undefined (a NULL or uninitialised pointer, a page table
subscript out of range) or that traps in the kernel (a page that cannot be
written).
-/
inductive Mode where
  | user
  | kernel
  | halted
  | undefined
  deriving DecidableEq, Repr

/-- What an observer of system calls and of the terminals sees. -/
inductive Event where
  | exit (process : PcbPtr) (code : Int)
  | waitReturn (process : PcbPtr) (child : Option PcbPtr)
      (status : Option Int) (result : Int)
  | ttyReadCall (ttyId : Nat) (process : PcbPtr) (len : Nat)
  | ttyReadReturn (ttyId : Nat) (process : PcbPtr) (bytes : List UInt8)
  | ttyReceive (ttyId : Nat) (bytes : List UInt8)
  | ttyWriteCall (ttyId : Nat) (process : PcbPtr) (bytes : List UInt8)
  | ttyTransmit (ttyId : Nat) (process : PcbPtr) (chunk : List UInt8)
  | ttyTransmitTrap (ttyId : Nat)
  | ttyWriteReturn (ttyId : Nat) (process : PcbPtr) (result : Int)
  | pipeInit (pipe : PipePtr)
  | pipeWrite (pipe : PipePtr) (process : PcbPtr) (bytes : List UInt8)
      (result : Nat)
  | pipeRead (pipe : PipePtr) (process : PcbPtr) (len : Nat)
      (bytes : List UInt8) (result : Nat)

/--
History the code does not keep: which processes have terminated, who created a
process, whose status a woken parent carries in `blocked_code`, the pids handed
out so far, and the events in order.
-/
structure History where
  terminated : PcbPtr → Bool
  creator : PcbPtr → PcbPtr
  reporter : PcbPtr → Option PcbPtr
  usedPids : List Nat
  trace : List Event

structure Kernel where
  pcb : PcbTable
  npcb : Nat
  activePCB : PcbPtr
  idlePCB : PcbPtr
  readyQ : List PcbPtr
  blockedQ : List PcbPtr
  defunctQ : List PcbPtr
  pfnList : List Nat
  globalClockTicks : Nat
  ttyReadQueues : Nat → List PcbPtr
  ttyWriteQueues : Nat → List PcbPtr
  ttyReadbuffers : Nat → Nat → UInt8
  ttyReadTrackers : Nat → Nat
  ttyWriteTrackers : Nat → TerminalStatus
  /-- The transmissions that each terminal is still working on. -/
  transmitting : Nat → Nat
  pipes : PipePtr → Pipe
  npipes : Nat
  /-- The pipes from `head_pipe` along the `next` pointers. -/
  pipeChain : List PipePtr
  lockList : List Int
  cvarList : List Int
  lockStatus : Int → Int
  cvarStatus : Int → Int
  lockAquireQueues : Int → List PcbPtr
  cvarWaitQueues : Int → List PcbPtr
  /-- The Region 0 page table. -/
  kPt : Nat → Pte
  /-- The process whose page table `REG_PTBR1` points to. -/
  ptbr1 : PcbPtr
  /-- `sp` and `pc` of the `UserContext` on each process's kernel stack. -/
  uctxt : PcbPtr → UserContext
  /-- `regs[0]` of that context: the result the process will see. -/
  reg0 : PcbPtr → Int
  mode : Mode
  history : History

/-- Write one cell of a map. -/
abbrev upd {Key Value : Type*} [DecidableEq Key] (map : Key → Value)
    (key : Key) (value : Value) : Key → Value :=
  Function.update map key value

theorem upd_apply {Key Value : Type*} [DecidableEq Key] (map : Key → Value)
    (key : Key) (value : Value) (k : Key) :
    upd map key value k = if k = key then value else map k :=
  Function.update_apply map key value k

theorem upd_same {Key Value : Type*} [DecidableEq Key] (map : Key → Value)
    (key : Key) (value : Value) : upd map key value key = value :=
  Function.update_self key value map

theorem upd_other {Key Value : Type*} [DecidableEq Key] {k key : Key}
    (h : k ≠ key) (map : Key → Value) (value : Value) :
    upd map key value k = map k :=
  Function.update_of_ne h value map

theorem upd_upd {Key Value : Type*} [DecidableEq Key] (map : Key → Value)
    (key : Key) (value value' : Value) :
    upd (upd map key value) key value' = upd map key value' :=
  Function.update_idem value value' map

namespace Kernel

/-! ## Writing one global or one PCB field -/

def setActivePCB (s : Kernel) (p : PcbPtr) : Kernel := { s with activePCB := p }

def setReadyQ (s : Kernel) (q : List PcbPtr) : Kernel := { s with readyQ := q }

def setBlockedQ (s : Kernel) (q : List PcbPtr) : Kernel :=
  { s with blockedQ := q }

def setDefunctQ (s : Kernel) (q : List PcbPtr) : Kernel :=
  { s with defunctQ := q }

def setPfnList (s : Kernel) (pool : List Nat) : Kernel :=
  { s with pfnList := pool }

def setTtyReadQueue (s : Kernel) (t : Nat) (q : List PcbPtr) : Kernel :=
  { s with ttyReadQueues := upd s.ttyReadQueues t q }

def setTtyWriteQueue (s : Kernel) (t : Nat) (q : List PcbPtr) : Kernel :=
  { s with ttyWriteQueues := upd s.ttyWriteQueues t q }

def setReadBuffer (s : Kernel) (t : Nat) (buf : Buffer) : Kernel :=
  { s with ttyReadbuffers := upd s.ttyReadbuffers t buf }

def setReadTracker (s : Kernel) (t tracker : Nat) : Kernel :=
  { s with ttyReadTrackers := upd s.ttyReadTrackers t tracker }

def setWriteTracker (s : Kernel) (t : Nat) (status : TerminalStatus) :
    Kernel :=
  { s with ttyWriteTrackers := upd s.ttyWriteTrackers t status }

def setTransmitting (s : Kernel) (t n : Nat) : Kernel :=
  { s with transmitting := upd s.transmitting t n }

def setPipe (s : Kernel) (p : PipePtr) (pipe : Pipe) : Kernel :=
  { s with pipes := upd s.pipes p pipe }

def setPipeChain (s : Kernel) (chain : List PipePtr) : Kernel :=
  { s with pipeChain := chain }

def setLockList (s : Kernel) (ids : List Int) : Kernel :=
  { s with lockList := ids }

def setCvarList (s : Kernel) (ids : List Int) : Kernel :=
  { s with cvarList := ids }

def setLockStatus (s : Kernel) (lockId status : Int) : Kernel :=
  { s with lockStatus := upd s.lockStatus lockId status }

def setCvarStatus (s : Kernel) (index status : Int) : Kernel :=
  { s with cvarStatus := upd s.cvarStatus index status }

def setLockAquireQueue (s : Kernel) (i : Int) (q : List PcbPtr) : Kernel :=
  { s with lockAquireQueues := upd s.lockAquireQueues i q }

def setCvarWaitQueue (s : Kernel) (i : Int) (q : List PcbPtr) : Kernel :=
  { s with cvarWaitQueues := upd s.cvarWaitQueues i q }

def setKPt (s : Kernel) (table : Nat → Pte) : Kernel := { s with kPt := table }

def setPtbr1 (s : Kernel) (p : PcbPtr) : Kernel := { s with ptbr1 := p }

def setUctxt (s : Kernel) (p : PcbPtr) (ctx : UserContext) : Kernel :=
  { s with uctxt := upd s.uctxt p ctx }

def setReg0 (s : Kernel) (p : PcbPtr) (value : Int) : Kernel :=
  { s with reg0 := upd s.reg0 p value }

def setMode (s : Kernel) (mode : Mode) : Kernel := { s with mode := mode }

def setPcb (s : Kernel) (pcb : PcbTable) : Kernel := { s with pcb := pcb }

def setHistory (s : Kernel) (history : History) : Kernel :=
  { s with history := history }

def setBlockedCode (s : Kernel) (p : PcbPtr) (code : Int) : Kernel :=
  s.setPcb { s.pcb with blockedCode := upd s.pcb.blockedCode p code }

def setTtyTerminal (s : Kernel) (p : PcbPtr) (ttyId : Nat) : Kernel :=
  s.setPcb { s.pcb with ttyTerminal := upd s.pcb.ttyTerminal p ttyId }

def setClockTicks (s : Kernel) (p : PcbPtr) (ticks : Int) : Kernel :=
  s.setPcb { s.pcb with clockTicks := upd s.pcb.clockTicks p ticks }

def setExitCode (s : Kernel) (p : PcbPtr) (code : Int) : Kernel :=
  s.setPcb { s.pcb with exitCode := upd s.pcb.exitCode p code }

def setNumChildren (s : Kernel) (p : PcbPtr) (n : Int) : Kernel :=
  s.setPcb { s.pcb with numChildren := upd s.pcb.numChildren p n }

def setKernelContext (s : Kernel) (p : PcbPtr) (k : KernelContext) : Kernel :=
  s.setPcb { s.pcb with kernelContext := upd s.pcb.kernelContext p k }

def setUserPageTable (s : Kernel) (p : PcbPtr) (table : Nat → Pte) : Kernel :=
  s.setPcb { s.pcb with userPageTable := upd s.pcb.userPageTable p table }

def setKernelStackPt (s : Kernel) (p : PcbPtr) (table : Nat → Pte) : Kernel :=
  s.setPcb { s.pcb with kernelStackPt := upd s.pcb.kernelStackPt p table }

def setUserContext (s : Kernel) (p : PcbPtr) (ctx : UserContext) : Kernel :=
  s.setPcb { s.pcb with userContext := upd s.pcb.userContext p ctx }

def setTextIndex (s : Kernel) (p : PcbPtr) (i : Int) : Kernel :=
  s.setPcb { s.pcb with userTextPtIndex := upd s.pcb.userTextPtIndex p i }

def setDataIndex (s : Kernel) (p : PcbPtr) (i : Int) : Kernel :=
  s.setPcb { s.pcb with userDataPtIndex := upd s.pcb.userDataPtIndex p i }

def setHeapIndex (s : Kernel) (p : PcbPtr) (i : Int) : Kernel :=
  s.setPcb { s.pcb with userHeapPtIndex := upd s.pcb.userHeapPtIndex p i }

def setStackIndex (s : Kernel) (p : PcbPtr) (i : Int) : Kernel :=
  s.setPcb { s.pcb with userStackPtIndex := upd s.pcb.userStackPtIndex p i }

/-! ## History -/

/-- Record an event. -/
def emit (s : Kernel) (e : Event) : Kernel :=
  s.setHistory { s.history with trace := s.history.trace ++ [e] }

def setTerminated (s : Kernel) (p : PcbPtr) : Kernel :=
  s.setHistory
    { s.history with terminated := upd s.history.terminated p true }

def setReporter (s : Kernel) (p : PcbPtr) (child : Option PcbPtr) : Kernel :=
  s.setHistory { s.history with reporter := upd s.history.reporter p child }

/-! ## Queues and returns -/

/-- `queue_add`; the NULL queue is refused and nothing changes. -/
def queueAdd (s : Kernel) (queue : Option QueueRef) (p : PcbPtr) : Kernel :=
  match queue with
  | none => s
  | some .readyQ => s.setReadyQ (s.readyQ ++ [p])
  | some .blockedQ => s.setBlockedQ (s.blockedQ ++ [p])
  | some .defunctQ => s.setDefunctQ (s.defunctQ ++ [p])
  | some (.ttyReadQueue t) => s.setTtyReadQueue t (s.ttyReadQueues t ++ [p])
  | some (.lockAquireQueue i) =>
      s.setLockAquireQueue i (s.lockAquireQueues i ++ [p])
  | some (.cvarWaitQueue i) => s.setCvarWaitQueue i (s.cvarWaitQueues i ++ [p])

/-- The handler is done and the active process goes on in user mode. -/
def toUser (s : Kernel) : Kernel := s.setMode .user

/-- A system call is done with a result for the active process. -/
def ret (s : Kernel) (result : Int) : Kernel :=
  (s.setReg0 s.activePCB result).setMode .user

/-- Behaviour that C leaves undefined. -/
def toUndefined (s : Kernel) : Kernel := s.setMode .undefined

end Kernel

end Yalnix
