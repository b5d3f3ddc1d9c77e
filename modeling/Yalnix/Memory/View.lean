import Yalnix.Kernel.Runs

/-!
# The memory of a state

`memory` keeps the page tables, the frame pool, the user contexts and the saved
kernel contexts.  Most handlers leave all of it alone, or switch to another
process; `Fork`, `Exec`, `Exit`, `Brk` and memory traps are the others.
-/

namespace Yalnix

/-- What the kernel knows about memory and contexts. -/
structure Memory where
  active : PcbPtr
  npcb : Nat
  pfnList : List Nat
  kPt : Nat → Pte
  ptbr1 : PcbPtr
  uctxt : PcbPtr → UserContext
  userContext : PcbPtr → UserContext
  kernelContext : PcbPtr → KernelContext
  userPageTable : PcbPtr → Nat → Pte
  userStackPtIndex : PcbPtr → Int
  userHeapPtIndex : PcbPtr → Int
  userTextPtIndex : PcbPtr → Int
  userDataPtIndex : PcbPtr → Int
  kernelStackPt : PcbPtr → Nat → Pte

namespace Memory

/-- Idle goes on with nothing ready: it only passes through `SwapProcess`. -/
def park (m : Memory) (k : KernelContext) : Memory :=
  { m with kernelContext := upd m.kernelContext m.active k }

/-- The switch to `next` before its user context is reloaded. -/
def leave (m : Memory) (next : PcbPtr) (k : KernelContext) : Memory :=
  { m with
    active := next
    ptbr1 := next
    userContext := upd m.userContext m.active (m.uctxt m.active)
    kernelContext := upd m.kernelContext m.active k
    kPt := fun i =>
      if kernelStackBase ≤ i ∧ i < kernelStackBase + kernelStackSize then
        m.kernelStackPt next (i - kernelStackBase)
      else m.kPt i }

/-- A context saved in `SwapProcess` takes `sp` and `pc` from the PCB. -/
def reload (m : Memory) (next : PcbPtr) : Memory :=
  if (m.kernelContext next).reloadsUserContext then
    { m with uctxt := upd m.uctxt next (m.userContext next) }
  else m

/-- The switch to `next`, with `k` saved for the process that leaves. -/
def switch (m : Memory) (next : PcbPtr) (k : KernelContext) : Memory :=
  (m.leave next k).reload next

/-- `free_addr_space` on the tables of the active process. -/
def free (m : Memory) : Memory :=
  { m with
    pfnList := freeAddrSpace (m.userPageTable m.active)
      (m.kernelStackPt m.active) m.pfnList }

/-- What a handler that leaves memory alone can do. -/
inductive Quiet (m : Memory) : Memory → Prop where
  | keeps : Quiet m m
  | parks {k : KernelContext} : k.reloadsUserContext = true →
      Quiet m (m.park k)
  | switches (next : PcbPtr) {k : KernelContext} :
      k.reloadsUserContext = true → Quiet m (m.switch next k)

end Memory

namespace Kernel

variable {s s' : Kernel}

def memory (s : Kernel) : Memory :=
  { active := s.activePCB
    npcb := s.npcb
    pfnList := s.pfnList
    kPt := s.kPt
    ptbr1 := s.ptbr1
    uctxt := s.uctxt
    userContext := s.pcb.userContext
    kernelContext := s.pcb.kernelContext
    userPageTable := s.pcb.userPageTable
    userStackPtIndex := s.pcb.userStackPtIndex
    userHeapPtIndex := s.pcb.userHeapPtIndex
    userTextPtIndex := s.pcb.userTextPtIndex
    userDataPtIndex := s.pcb.userDataPtIndex
    kernelStackPt := s.pcb.kernelStackPt }

/-! ## What leaves memory alone -/

@[simp] theorem setMode_memory (mode : Mode) :
    (s.setMode mode).memory = s.memory := rfl

@[simp] theorem ret_memory (result : Int) :
    (s.ret result).memory = s.memory := rfl

@[simp] theorem toUser_memory : s.toUser.memory = s.memory := rfl

@[simp] theorem emit_memory (e : Event) : (s.emit e).memory = s.memory := rfl

@[simp] theorem setReg0_memory (p : PcbPtr) (value : Int) :
    (s.setReg0 p value).memory = s.memory := rfl

@[simp] theorem setReadyQ_memory (q : List PcbPtr) :
    (s.setReadyQ q).memory = s.memory := rfl

@[simp] theorem setBlockedQ_memory (q : List PcbPtr) :
    (s.setBlockedQ q).memory = s.memory := rfl

@[simp] theorem setDefunctQ_memory (q : List PcbPtr) :
    (s.setDefunctQ q).memory = s.memory := rfl

@[simp] theorem setTtyReadQueue_memory (t : Nat) (q : List PcbPtr) :
    (s.setTtyReadQueue t q).memory = s.memory := rfl

@[simp] theorem setTtyWriteQueue_memory (t : Nat) (q : List PcbPtr) :
    (s.setTtyWriteQueue t q).memory = s.memory := rfl

@[simp] theorem setReadBuffer_memory (t : Nat) (buf : Buffer) :
    (s.setReadBuffer t buf).memory = s.memory := rfl

@[simp] theorem setReadTracker_memory (t n : Nat) :
    (s.setReadTracker t n).memory = s.memory := rfl

@[simp] theorem setWriteTracker_memory (t : Nat) (status : TerminalStatus) :
    (s.setWriteTracker t status).memory = s.memory := rfl

@[simp] theorem setTransmitting_memory (t n : Nat) :
    (s.setTransmitting t n).memory = s.memory := rfl

@[simp] theorem setPipeChain_memory (chain : List PipePtr) :
    (s.setPipeChain chain).memory = s.memory := rfl

@[simp] theorem setLockList_memory (ids : List Int) :
    (s.setLockList ids).memory = s.memory := rfl

@[simp] theorem setCvarList_memory (ids : List Int) :
    (s.setCvarList ids).memory = s.memory := rfl

@[simp] theorem setCvarStatus_memory (i status : Int) :
    (s.setCvarStatus i status).memory = s.memory := rfl

@[simp] theorem setCvarWaitQueue_memory (i : Int) (q : List PcbPtr) :
    (s.setCvarWaitQueue i q).memory = s.memory := rfl

@[simp] theorem toUndefined_memory : s.toUndefined.memory = s.memory := rfl

@[simp] theorem setPipe_memory (p : PipePtr) (pipe : Pipe) :
    (s.setPipe p pipe).memory = s.memory := rfl

@[simp] theorem setLockStatus_memory (i status : Int) :
    (s.setLockStatus i status).memory = s.memory := rfl

@[simp] theorem setLockAquireQueue_memory (i : Int) (q : List PcbPtr) :
    (s.setLockAquireQueue i q).memory = s.memory := rfl

@[simp] theorem setBlockedCode_memory (p : PcbPtr) (code : Int) :
    (s.setBlockedCode p code).memory = s.memory := rfl

@[simp] theorem setTtyTerminal_memory (p : PcbPtr) (t : Nat) :
    (s.setTtyTerminal p t).memory = s.memory := rfl

@[simp] theorem setClockTicks_memory (p : PcbPtr) (ticks : Int) :
    (s.setClockTicks p ticks).memory = s.memory := rfl

@[simp] theorem setExitCode_memory (p : PcbPtr) (code : Int) :
    (s.setExitCode p code).memory = s.memory := rfl

@[simp] theorem setNumChildren_memory (p : PcbPtr) (n : Int) :
    (s.setNumChildren p n).memory = s.memory := rfl

@[simp] theorem setTerminated_memory (p : PcbPtr) :
    (s.setTerminated p).memory = s.memory := rfl

@[simp] theorem setReporter_memory (p : PcbPtr) (child : Option PcbPtr) :
    (s.setReporter p child).memory = s.memory := rfl

theorem setPfnList_memory (pool : List Nat) :
    (s.setPfnList pool).memory = { s.memory with pfnList := pool } := rfl

@[simp] theorem queueAdd_memory (q : Option QueueRef) (p : PcbPtr) :
    (s.queueAdd q p).memory = s.memory := by
  rcases q with _ | q
  · rfl
  · cases q <;> rfl

@[simp] theorem afterWake_memory (p : PipePtr) (st : PipeWake) :
    (s.afterWake p st).memory = s.memory := rfl

@[simp] theorem addPipe_memory : s.addPipe.2.memory = s.memory := rfl

@[simp] theorem checkBlocked_memory (p : PcbPtr) :
    (s.checkBlocked p).2.memory = s.memory := by
  unfold checkBlocked
  split
  · split <;> rfl
  · split
    · split <;> rfl
    · rfl

@[simp] theorem blockedScan_memory (limit : Nat) :
    (blockedScan limit s).memory = s.memory := by
  induction limit generalizing s with
  | zero => rfl
  | succ limit ih =>
      unfold blockedScan
      split
      · exact ih
      · rw [ih, queueAdd_memory, checkBlocked_memory, setBlockedQ_memory]

@[simp] theorem exitLoops_memory : s.exitLoops.2.memory = s.memory := by
  unfold exitLoops
  rfl

/-! ## Switching -/

theorem reloadContext_memory (next : PcbPtr) :
    (s.reloadContext next).memory = s.memory.reload next := by
  have hcontext : s.memory.kernelContext = s.pcb.kernelContext := rfl
  unfold reloadContext Memory.reload
  rw [hcontext]
  split
  · rfl
  · rfl

theorem swapProcess_memory (q : Option QueueRef) (k : KernelContext) :
    (s.swapProcess q k).memory =
      if s.pcb.pid s.activePCB = s.pcb.pid s.idlePCB ∧ s.readyQ = [] then
        s.memory.park k
      else s.memory.switch s.nextProcess k := by
  unfold swapProcess
  simp only
  split
  · rfl
  · rw [setMode_memory, reloadContext_memory, Memory.switch]
    refine congrArg (Memory.reload · _) ?_
    rcases (if s.pcb.pid s.activePCB = s.pcb.pid s.idlePCB then none
      else q) with _ | q
    · rfl
    · cases q <;> rfl

theorem swapProcess_mode (q : Option QueueRef) (k : KernelContext) :
    (s.swapProcess q k).mode = .kernel := by
  unfold swapProcess
  simp only
  split
  · rfl
  · rfl

theorem swapProcess_quiet {m : Memory} (h : s.memory = m)
    (q : Option QueueRef) {k : KernelContext}
    (hk : k.reloadsUserContext = true) :
    m.Quiet (s.swapProcess q k).memory := by
  rw [swapProcess_memory, h]
  split
  · exact .parks hk
  · exact .switches _ hk

theorem quiet_of_eq (h : s'.memory = s.memory) :
    s.memory.Quiet s'.memory := by
  rw [h]
  exact .keeps

/-! ## Quiet handlers -/

theorem kernelWait_quiet (nonNull : Bool) :
    s.memory.Quiet (s.kernelWait nonNull).memory := by
  unfold kernelWait
  simp only
  split
  · exact quiet_of_eq (by simp)
  · split
    · exact quiet_of_eq (by simp)
    · exact swapProcess_quiet (by simp) _ rfl

theorem kernelWaitResume_quiet (setCodePid : Nat) :
    s.memory.Quiet (s.kernelWaitResume setCodePid).memory := by
  unfold kernelWaitResume
  simp only
  split
  · exact quiet_of_eq (by simp)
  · exact quiet_of_eq (by simp)

theorem kernelDelay_quiet (ticks : Int) :
    s.memory.Quiet (s.kernelDelay ticks).memory := by
  unfold kernelDelay
  split
  · exact quiet_of_eq (by simp)
  · split
    · exact quiet_of_eq (by simp)
    · exact swapProcess_quiet (by simp) _ rfl

theorem ttyReadFinish_quiet (t len : Nat) :
    s.memory.Quiet (s.ttyReadFinish t len).memory := by
  unfold ttyReadFinish
  simp only
  split
  · exact quiet_of_eq (by simp)
  · split
    · exact quiet_of_eq (by simp)
    · exact quiet_of_eq (by simp)

theorem kernelTtyRead_quiet (ttyId len : Int) :
    s.memory.Quiet (s.kernelTtyRead ttyId len).memory := by
  unfold kernelTtyRead
  split
  · exact quiet_of_eq (by simp)
  · split
    · exact quiet_of_eq (by simp)
    · split
      · exact quiet_of_eq (by simp)
      · simp only
        split
        · exact swapProcess_quiet (by simp) _ rfl
        · rw [← emit_memory (.ttyReadCall ttyId.toNat s.activePCB len.toNat)]
          exact ttyReadFinish_quiet _ _

@[simp] theorem ttyTransmit_memory (t : Nat) (chunk : List UInt8) :
    ((s.setWriteTracker t .terminalClosed).ttyTransmit t chunk).memory =
      s.memory := rfl

theorem ttyWriteFinish_quiet (t written : Nat) :
    s.memory.Quiet (s.ttyWriteFinish t written).memory := by
  unfold ttyWriteFinish
  simp only
  split
  · exact quiet_of_eq (by simp)
  · exact quiet_of_eq (by simp)

theorem ttyWriteLoop_quiet (t : Nat) (buf : Buffer)
    (len rounds left written : Nat) :
    s.memory.Quiet (ttyWriteLoop t buf len rounds left written s).memory := by
  induction rounds generalizing s left written with
  | zero => exact ttyWriteFinish_quiet t written
  | succ rounds ih =>
      rw [ttyWriteLoop]
      split
      · exact ttyWriteFinish_quiet t written
      · split
        · exact swapProcess_quiet (by simp) _ rfl
        · rw [← ttyTransmit_memory (s := s) t (bytesOf buf written
            (if terminalMaxLine < left then terminalMaxLine else left))]
          exact ih _ _

theorem kernelTtyWrite_quiet (ttyId : Int) (buf : Buffer) (len : Int) :
    s.memory.Quiet (s.kernelTtyWrite ttyId buf len).memory := by
  unfold kernelTtyWrite
  split
  · exact quiet_of_eq (by simp)
  · split
    · exact quiet_of_eq (by simp)
    · split
      · exact quiet_of_eq (by simp)
      · simp only
        split
        · exact swapProcess_quiet (by simp) _ rfl
        · rw [← setTtyWriteQueue_memory ttyId.toNat
            (s.ttyWriteQueues ttyId.toNat ++ [s.activePCB]),
            ← emit_memory (.ttyWriteCall ttyId.toNat s.activePCB
              (bytesOf buf 0 len.toNat))]
          exact ttyWriteLoop_quiet _ _ _ _ _ _

theorem trapTTYReceiveHandler_quiet (t : Nat) (bytes : List UInt8) :
    s.memory.Quiet (s.trapTTYReceiveHandler t bytes).memory := by
  unfold trapTTYReceiveHandler
  simp only
  split
  · exact quiet_of_eq (by simp)
  · exact quiet_of_eq (by simp)

theorem trapTTYTransmitHandler_quiet (t : Nat) :
    s.memory.Quiet (s.trapTTYTransmitHandler t).memory := by
  unfold trapTTYTransmitHandler
  simp only
  split
  · exact quiet_of_eq (by simp)
  · split
    · exact quiet_of_eq (by simp)
    · exact quiet_of_eq (by simp)

theorem pipeSleep_quiet (p : PipePtr) (code : Int) {k : KernelContext}
    (hk : k.reloadsUserContext = true) :
    s.memory.Quiet (s.pipeSleep p code k).memory :=
  swapProcess_quiet (by simp) _ hk

theorem pipeReadLoop_quiet (p : PipePtr) (len : Nat) :
    s.memory.Quiet (s.pipeReadLoop p len).memory := by
  unfold pipeReadLoop
  split
  · exact pipeSleep_quiet _ _ rfl
  · exact quiet_of_eq (by simp [pipeReadFinish])

theorem kernelPipeRead_quiet (pipeId : Int) (nonNull : Bool) (len : Int) :
    s.memory.Quiet (s.kernelPipeRead pipeId nonNull len).memory := by
  unfold kernelPipeRead
  split
  · exact quiet_of_eq (by simp)
  · split
    · exact quiet_of_eq (by simp)
    · split
      · exact quiet_of_eq (by simp)
      · split
        · exact quiet_of_eq (by simp)
        · split
          · exact pipeSleep_quiet _ _ rfl
          · exact pipeReadLoop_quiet _ _

theorem pipeWriteLoop_quiet (p : PipePtr) (buf : Buffer) (len : Nat) :
    s.memory.Quiet (s.pipeWriteLoop p buf len).memory := by
  unfold pipeWriteLoop
  split
  · exact pipeSleep_quiet _ _ rfl
  · exact quiet_of_eq (by simp [pipeWriteFinish])

theorem kernelPipeWrite_quiet (pipeId : Int) (buf : Option Buffer)
    (len : Int) :
    s.memory.Quiet (s.kernelPipeWrite pipeId buf len).memory := by
  unfold kernelPipeWrite
  split
  · exact quiet_of_eq (by simp)
  · split
    · exact quiet_of_eq (by simp)
    · split
      · exact quiet_of_eq (by simp)
      · split
        · exact quiet_of_eq (by simp)
        · split
          · exact quiet_of_eq (by simp)
          · exact pipeWriteLoop_quiet _ _ _

theorem kernelAcquire_quiet (lockId : Int) :
    s.memory.Quiet (s.kernelAcquire lockId).memory := by
  unfold kernelAcquire
  simp only
  split
  · exact quiet_of_eq (by simp)
  · split
    · exact quiet_of_eq (by simp)
    · split
      · exact quiet_of_eq (by simp)
      · split
        · exact swapProcess_quiet (by simp) _ rfl
        · exact quiet_of_eq (by simp)

@[simp] theorem kernelRelease_memory (lockId : Int) :
    (s.kernelRelease lockId).2.memory = s.memory := by
  unfold kernelRelease
  split
  · rfl
  · split
    · rfl
    · simp only
      split
      · rfl
      · rfl

theorem kernelCvarWait_quiet (cvarId lockId : Int) :
    s.memory.Quiet (s.kernelCvarWait cvarId lockId).memory := by
  unfold kernelCvarWait
  simp only
  split
  · exact quiet_of_eq (by simp)
  · split
    · exact quiet_of_eq (by simp)
    · exact swapProcess_quiet (kernelRelease_memory lockId) _ rfl

theorem kernelReclaim_quiet (id : Int) :
    s.memory.Quiet (s.kernelReclaim id).memory := by
  unfold kernelReclaim removePipe
  split
  · exact quiet_of_eq (by simp)
  · split
    · exact quiet_of_eq (by simp)
    · split
      · exact quiet_of_eq (by simp)
      · split
        · exact quiet_of_eq (by simp)
        · exact quiet_of_eq (by simp)

theorem trapClockHandler_quiet : s.memory.Quiet s.trapClockHandler.memory := by
  have hticks : ({ s with globalClockTicks := s.globalClockTicks + 1 } :
      Kernel).memory = s.memory := rfl
  exact swapProcess_quiet hticks _ rfl

theorem trapFaultHandler_quiet : s.memory.Quiet s.trapFaultHandler.memory :=
  swapProcess_quiet (by simp) _ rfl

/-- The process that resumes never touches memory before it returns or sleeps
again. -/
theorem resume_quiet : s.memory.Quiet s.resume.memory := by
  unfold resume
  split
  · exact quiet_of_eq (by simp)
  · exact quiet_of_eq (by simp)
  · exact quiet_of_eq (by simp)
  · exact quiet_of_eq (by simp)
  · exact quiet_of_eq (by simp)
  · exact kernelWaitResume_quiet _
  · exact quiet_of_eq (by simp)
  · exact ttyReadFinish_quiet _ _
  · exact ttyWriteLoop_quiet _ _ _ _ _ _
  · exact pipeReadLoop_quiet _ _
  · exact pipeWriteLoop_quiet _ _ _
  · exact quiet_of_eq (by simp [kernelAcquireResume])
  · exact kernelAcquire_quiet _

end Kernel

/-- The system calls that allocate or free frames. -/
def Syscall.usesMemory : Syscall → Bool
  | .fork _ => true
  | .exec _ => true
  | .exit _ => true
  | .brk _ => true
  | _ => false

/-- The traps that do. -/
def Trap.usesMemory : Trap → Bool
  | .kernel call => call.usesMemory
  | .memory _ _ => true
  | _ => false

namespace Kernel

variable {s : Kernel}

theorem trapKernelHandler_quiet {call : Syscall}
    (h : call.usesMemory = false) :
    s.memory.Quiet (s.trapKernelHandler call).memory := by
  cases call with
  | fork newPid => cases h
  | exec args => cases h
  | exit exitCode => cases h
  | wait nonNull => exact kernelWait_quiet nonNull
  | getPid => exact .keeps
  | brk addr => cases h
  | delay ticks => exact kernelDelay_quiet ticks
  | ttyRead ttyId len => exact kernelTtyRead_quiet ttyId len
  | ttyWrite ttyId buf len => exact kernelTtyWrite_quiet ttyId buf len
  | pipeInit nonNull =>
      simp only [trapKernelHandler, kernelPipeInit]
      split
      · exact quiet_of_eq (by simp)
      · exact quiet_of_eq (by simp)
  | pipeRead pipeId nonNull len => exact kernelPipeRead_quiet pipeId nonNull len
  | pipeWrite pipeId buf len => exact kernelPipeWrite_quiet pipeId buf len
  | lockInit nonNull =>
      simp only [trapKernelHandler, kernelLockInit]
      split
      · split
        · exact quiet_of_eq (by simp)
        · exact quiet_of_eq (by simp)
      · split
        · exact quiet_of_eq (by simp)
        · exact quiet_of_eq (by simp)
  | acquire lockId => exact kernelAcquire_quiet lockId
  | release lockId =>
      exact quiet_of_eq (by
        rw [trapKernelHandler, ret_memory, kernelRelease_memory])
  | cvarInit nonNull =>
      simp only [trapKernelHandler, kernelCvarInit]
      split
      · exact quiet_of_eq (by simp)
      · split
        · exact quiet_of_eq (by simp)
        · exact quiet_of_eq (by simp)
  | cvarSignal cvarId =>
      simp only [trapKernelHandler, kernelCvarSignal]
      split
      · exact quiet_of_eq (by simp)
      · split
        · exact quiet_of_eq (by simp)
        · exact quiet_of_eq (by simp)
  | cvarBroadcast cvarId =>
      simp only [trapKernelHandler, kernelCvarBroadcast]
      split
      · exact quiet_of_eq (by simp)
      · exact quiet_of_eq (by simp)
  | cvarWait cvarId lockId => exact kernelCvarWait_quiet cvarId lockId
  | reclaim id => exact kernelReclaim_quiet id

/-- Every other trap leaves memory alone or switches. -/
theorem handle_quiet {t : Trap} (h : t.usesMemory = false) :
    s.memory.Quiet (s.handle t).memory := by
  cases t with
  | kernel call => exact trapKernelHandler_quiet h
  | clock => exact trapClockHandler_quiet
  | illegal => exact trapFaultHandler_quiet
  | math => exact trapFaultHandler_quiet
  | memory addr beyondValid => cases h
  | ttyReceive t bytes => exact trapTTYReceiveHandler_quiet t bytes
  | ttyTransmit t => exact trapTTYTransmitHandler_quiet t

end Kernel

end Yalnix
