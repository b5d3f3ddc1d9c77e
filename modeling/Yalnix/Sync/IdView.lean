import Yalnix.Kernel.Runs

/-!
# The ids of a state

`ids` keeps the two id lists and the chain of the pipes.  `LockInit`,
`CvarInit`, `PipeInit` and `Reclaim` work on it, and every other step leaves it
alone.
-/

namespace Yalnix

/-- What decides about ids. -/
structure IdView where
  locks : List Int
  cvars : List Int
  chain : List PipePtr
  npipes : Nat
  pipeId : PipePtr → Int

namespace IdView

variable (v : IdView)

def pipeIds : List Int := v.chain.map v.pipeId

/-- The id of the next pipe. -/
def nextPipeId : Int :=
  match v.chain.getLast? with
  | none => 0
  | some tail => v.pipeId tail + 1

def lockInit : IdView := { v with locks := v.locks.tail }

def cvarInit : IdView := { v with cvars := v.cvars.tail }

def pipeInit : IdView :=
  { v with
    chain := v.chain ++ [v.npipes]
    npipes := v.npipes + 1
    pipeId := upd v.pipeId v.npipes v.nextPipeId }

def removePipe (id : Int) : IdView :=
  match v.chain.find? fun p => decide (v.pipeId p = id) with
  | none => v
  | some p =>
      if v.chain.head? = some p then v
      else { v with chain := v.chain.erase p }

def reclaim (id : Int) : IdView :=
  if id ≤ maxLocks then { v with locks := id :: v.locks }
  else if id ≤ maxCvars + maxLocks then { v with cvars := id :: v.cvars }
  else v.removePipe id

/-- The ids after a step. -/
def after : Label → IdView
  | .trap _ (.kernel (.lockInit true)) => v.lockInit
  | .trap _ (.kernel (.cvarInit true)) => v.cvarInit
  | .trap _ (.kernel (.pipeInit true)) => v.pipeInit
  | .trap _ (.kernel (.reclaim id)) => v.reclaim id
  | _ => v

end IdView

namespace Kernel

variable {s s' : Kernel}

def ids (s : Kernel) : IdView :=
  { locks := s.lockList
    cvars := s.cvarList
    chain := s.pipeChain
    npipes := s.npipes
    pipeId := fun p => (s.pipes p).id }

theorem ids_of_eraseMemory (h : s'.eraseMemory = s.eraseMemory) :
    s'.ids = s.ids := by
  have hids := congrArg Kernel.ids h
  exact hids

/-! ## What leaves the ids alone -/

@[simp] theorem setMode_ids (mode : Mode) : (s.setMode mode).ids = s.ids := rfl

@[simp] theorem ret_ids (result : Int) : (s.ret result).ids = s.ids := rfl

@[simp] theorem toUser_ids : s.toUser.ids = s.ids := rfl

@[simp] theorem toUndefined_ids : s.toUndefined.ids = s.ids := rfl

@[simp] theorem emit_ids (e : Event) : (s.emit e).ids = s.ids := rfl

@[simp] theorem enter_ids (ctx : UserContext) : (s.enter ctx).ids = s.ids := rfl

@[simp] theorem setReg0_ids (p : PcbPtr) (value : Int) :
    (s.setReg0 p value).ids = s.ids := rfl

@[simp] theorem setReadyQ_ids (q : List PcbPtr) :
    (s.setReadyQ q).ids = s.ids := rfl

@[simp] theorem setBlockedQ_ids (q : List PcbPtr) :
    (s.setBlockedQ q).ids = s.ids := rfl

@[simp] theorem setDefunctQ_ids (q : List PcbPtr) :
    (s.setDefunctQ q).ids = s.ids := rfl

@[simp] theorem setTtyReadQueue_ids (t : Nat) (q : List PcbPtr) :
    (s.setTtyReadQueue t q).ids = s.ids := rfl

@[simp] theorem setTtyWriteQueue_ids (t : Nat) (q : List PcbPtr) :
    (s.setTtyWriteQueue t q).ids = s.ids := rfl

@[simp] theorem setReadBuffer_ids (t : Nat) (buf : Buffer) :
    (s.setReadBuffer t buf).ids = s.ids := rfl

@[simp] theorem setReadTracker_ids (t n : Nat) :
    (s.setReadTracker t n).ids = s.ids := rfl

@[simp] theorem setWriteTracker_ids (t : Nat) (status : TerminalStatus) :
    (s.setWriteTracker t status).ids = s.ids := rfl

@[simp] theorem setTransmitting_ids (t n : Nat) :
    (s.setTransmitting t n).ids = s.ids := rfl

@[simp] theorem ttyTransmit_ids (t : Nat) (chunk : List UInt8) :
    (s.ttyTransmit t chunk).ids = s.ids := rfl

@[simp] theorem setLockStatus_ids (i status : Int) :
    (s.setLockStatus i status).ids = s.ids := rfl

@[simp] theorem setCvarStatus_ids (i status : Int) :
    (s.setCvarStatus i status).ids = s.ids := rfl

@[simp] theorem setLockAquireQueue_ids (i : Int) (q : List PcbPtr) :
    (s.setLockAquireQueue i q).ids = s.ids := rfl

@[simp] theorem setCvarWaitQueue_ids (i : Int) (q : List PcbPtr) :
    (s.setCvarWaitQueue i q).ids = s.ids := rfl

@[simp] theorem setBlockedCode_ids (p : PcbPtr) (code : Int) :
    (s.setBlockedCode p code).ids = s.ids := rfl

@[simp] theorem setTtyTerminal_ids (p : PcbPtr) (t : Nat) :
    (s.setTtyTerminal p t).ids = s.ids := rfl

@[simp] theorem setClockTicks_ids (p : PcbPtr) (ticks : Int) :
    (s.setClockTicks p ticks).ids = s.ids := rfl

@[simp] theorem setExitCode_ids (p : PcbPtr) (code : Int) :
    (s.setExitCode p code).ids = s.ids := rfl

@[simp] theorem setNumChildren_ids (p : PcbPtr) (n : Int) :
    (s.setNumChildren p n).ids = s.ids := rfl

@[simp] theorem setTerminated_ids (p : PcbPtr) :
    (s.setTerminated p).ids = s.ids := rfl

@[simp] theorem setReporter_ids (p : PcbPtr) (child : Option PcbPtr) :
    (s.setReporter p child).ids = s.ids := rfl

@[simp] theorem setPfnList_ids (pool : List Nat) :
    (s.setPfnList pool).ids = s.ids := rfl

@[simp] theorem setUctxt_ids (p : PcbPtr) (ctx : UserContext) :
    (s.setUctxt p ctx).ids = s.ids := rfl

@[simp] theorem setUserPageTable_ids (p : PcbPtr) (table : Nat → Pte) :
    (s.setUserPageTable p table).ids = s.ids := rfl

@[simp] theorem setKPt_ids (table : Nat → Pte) :
    (s.setKPt table).ids = s.ids := rfl

@[simp] theorem queueAdd_ids (q : Option QueueRef) (p : PcbPtr) :
    (s.queueAdd q p).ids = s.ids := by
  rcases q with _ | q
  · rfl
  · cases q <;> rfl

/-- A pipe is written and keeps its id. -/
theorem setPipe_ids {p : PipePtr} {pipe : Pipe}
    (h : pipe.id = (s.pipes p).id) : (s.setPipe p pipe).ids = s.ids := by
  have hid : (fun q => (upd s.pipes p pipe q).id) =
      fun q => (s.pipes q).id := by
    funext q
    by_cases hq : q = p
    · rw [hq, upd_same]
      exact h
    · rw [upd_other hq]
  unfold ids setPipe
  simp only [hid]

@[simp] theorem swapProcess_ids (q : Option QueueRef) (k : KernelContext) :
    (s.swapProcess q k).ids = s.ids := by
  unfold swapProcess
  simp only
  split
  · rfl
  · rw [ids_of_eraseMemory (reloadContext_eraseMemory _ _)]
    exact queueAdd_ids _ _

@[simp] theorem checkBlocked_ids (p : PcbPtr) :
    (s.checkBlocked p).2.ids = s.ids := by
  unfold checkBlocked
  split
  · split <;> rfl
  · split
    · split <;> rfl
    · rfl

@[simp] theorem blockedScan_ids (limit : Nat) :
    (blockedScan limit s).ids = s.ids := by
  induction limit generalizing s with
  | zero => rfl
  | succ limit ih =>
      unfold blockedScan
      split
      · exact ih
      · rw [ih, queueAdd_ids, checkBlocked_ids, setBlockedQ_ids]

/-! ## Processes -/

@[simp] theorem newProcess_ids (active : Option PcbPtr) (pid : Nat) :
    (s.newProcess active pid).ids = s.ids := rfl

@[simp] theorem setKernelContext_ids (p : PcbPtr) (k : KernelContext) :
    (s.setKernelContext p k).ids = s.ids := rfl

theorem initProcess_ids {active : Option PcbPtr} {pid : Nat}
    {ctx : UserContext} {p : PcbPtr}
    (h : s.initProcess active pid ctx = some (p, s')) : s'.ids = s.ids := by
  unfold initProcess at h
  simp only at h
  split at h
  · cases h
  · cases h
    rfl

theorem kcCopy_ids (child : PcbPtr) (k : KernelContext) :
    (s.kcCopy child k).ids = s.ids := by
  rcases kcCopy_eraseMemory (s := s) child k with h | h
  · exact (ids_of_eraseMemory h).trans rfl
  · exact (ids_of_eraseMemory h).trans rfl

theorem forkReady_ids (child : PcbPtr) : (s.forkReady child).ids = s.ids := by
  unfold forkReady
  simp only
  split
  · rw [kcCopy_ids, queueAdd_ids]
  · rw [ret_ids, kcCopy_ids, queueAdd_ids]

theorem kernelFork_ids (pid : Nat) : (s.kernelFork pid).ids = s.ids := by
  unfold kernelFork
  split
  · rfl
  · rename_i child forked hinit
    have hforked := initProcess_ids hinit
    have hcopied := ids_of_eraseMemory
      (copyIndices_eraseMemory (s := forked) child s.activePCB)
    simp only
    split
    · rw [ret_ids, hcopied, hforked]
    · unfold forkCopy
      split
      · simp [hcopied, hforked]
      · simp [forkReady_ids, hcopied, hforked]

theorem exitLoops_ids : s.exitLoops.2.ids = s.ids := by
  unfold exitLoops
  rfl

theorem kernelExit_ids (code : Int) : (s.kernelExit code).ids = s.ids := by
  unfold kernelExit
  simp only
  rw [swapProcess_ids, setTerminated_ids, setPfnList_ids]
  split
  · rw [exitLoops_ids, emit_ids, setExitCode_ids]
  · rw [emit_ids, setExitCode_ids]

theorem execCase_ids (a : ExecArgs) : (s.execCase a).ids = s.ids := by
  unfold execCase
  split
  · rfl
  · rename_i hexec
    have hload := ids_of_eraseMemory (kernelExec_eraseMemory hexec)
    split
    · rw [ret_ids, setUctxt_ids, hload]
    · rw [kernelExit_ids, setReg0_ids, hload]

theorem kernelWait_ids (nonNull : Bool) :
    (s.kernelWait nonNull).ids = s.ids := by
  unfold kernelWait
  simp only
  split
  · simp
  · split
    · simp
    · simp

theorem kernelWaitResume_ids (setCodePid : Nat) :
    (s.kernelWaitResume setCodePid).ids = s.ids := by
  unfold kernelWaitResume
  simp only
  split
  · simp
  · simp

theorem kernelDelay_ids (ticks : Int) : (s.kernelDelay ticks).ids = s.ids := by
  unfold kernelDelay
  split
  · rfl
  · split
    · rfl
    · simp

theorem kernelBrk_ids (addr : Nat) : (s.kernelBrk addr).ids = s.ids := by
  rcases kernelBrk_eraseMemory (s := s) addr with h | h
  · exact (ids_of_eraseMemory h).trans rfl
  · exact (ids_of_eraseMemory h).trans rfl

theorem trapMemoryHandler_ids (addr : Nat) (beyondValid : Bool) :
    (s.trapMemoryHandler addr beyondValid).ids = s.ids := by
  rcases trapMemoryHandler_eraseMemory (s := s) addr beyondValid with
    ⟨-, h⟩ | h | h
  · rw [h]
    exact kernelExit_ids _
  · exact (ids_of_eraseMemory h).trans rfl
  · exact (ids_of_eraseMemory h).trans rfl

/-! ## Terminals -/

theorem ttyReadFinish_ids (t len : Nat) :
    (s.ttyReadFinish t len).ids = s.ids := by
  unfold ttyReadFinish
  simp only
  split
  · simp
  · split
    · simp
    · simp

theorem kernelTtyRead_ids (ttyId len : Int) :
    (s.kernelTtyRead ttyId len).ids = s.ids := by
  unfold kernelTtyRead
  split
  · rfl
  · split
    · rfl
    · split
      · rfl
      · simp only
        split
        · simp
        · rw [ttyReadFinish_ids, emit_ids]

theorem ttyWriteFinish_ids (t written : Nat) :
    (s.ttyWriteFinish t written).ids = s.ids := by
  unfold ttyWriteFinish
  simp only
  split
  · simp
  · simp

theorem ttyWriteLoop_ids (t : Nat) (buf : Buffer)
    (len rounds left written : Nat) :
    (ttyWriteLoop t buf len rounds left written s).ids = s.ids := by
  induction rounds generalizing s left written with
  | zero => exact ttyWriteFinish_ids t written
  | succ rounds ih =>
      rw [ttyWriteLoop]
      split
      · exact ttyWriteFinish_ids t written
      · split
        · simp
        · exact ih _ _

theorem kernelTtyWrite_ids (ttyId : Int) (buf : Buffer) (len : Int) :
    (s.kernelTtyWrite ttyId buf len).ids = s.ids := by
  unfold kernelTtyWrite
  split
  · rfl
  · split
    · rfl
    · split
      · rfl
      · simp only
        split
        · simp
        · rw [ttyWriteLoop_ids, emit_ids, setTtyWriteQueue_ids]

theorem trapTTYReceiveHandler_ids (t : Nat) (bytes : List UInt8) :
    (s.trapTTYReceiveHandler t bytes).ids = s.ids := by
  unfold trapTTYReceiveHandler
  simp only
  split
  · simp
  · simp

theorem trapTTYTransmitHandler_ids (t : Nat) :
    (s.trapTTYTransmitHandler t).ids = s.ids := by
  unfold trapTTYTransmitHandler
  simp only
  split
  · simp
  · split
    · simp
    · simp

/-! ## Bytes in pipes -/

theorem afterWake_ids (p : PipePtr) (st : PipeWake) :
    (s.afterWake p st).ids = s.ids :=
  setPipe_ids rfl

theorem pipeSleep_ids (p : PipePtr) (code : Int) (k : KernelContext) :
    (s.pipeSleep p code k).ids = s.ids := by
  unfold pipeSleep
  rw [swapProcess_ids]
  exact setPipe_ids rfl

theorem read_id (pipe : Pipe) (len : Nat) : (pipe.read len).2.1.id = pipe.id := by
  unfold Pipe.read
  split
  · rfl
  · rfl

theorem write_id (pipe : Pipe) (buf : Buffer) (len : Nat) :
    (pipe.write buf len).1.id = pipe.id := by
  unfold Pipe.write
  simp only
  split
  · rfl
  · rfl

theorem pipeReadLoop_ids (p : PipePtr) (len : Nat) :
    (s.pipeReadLoop p len).ids = s.ids := by
  unfold pipeReadLoop
  split
  · exact pipeSleep_ids _ _ _
  · unfold pipeReadFinish
    simp only
    rw [ret_ids, afterWake_ids]
    exact setPipe_ids (read_id _ len)

theorem kernelPipeRead_ids (pipeId : Int) (nonNull : Bool) (len : Int) :
    (s.kernelPipeRead pipeId nonNull len).ids = s.ids := by
  unfold kernelPipeRead
  split
  · rfl
  · split
    · rfl
    · split
      · rfl
      · split
        · rfl
        · split
          · exact pipeSleep_ids _ _ _
          · exact pipeReadLoop_ids _ _

theorem pipeWriteLoop_ids (p : PipePtr) (buf : Buffer) (len : Nat) :
    (s.pipeWriteLoop p buf len).ids = s.ids := by
  unfold pipeWriteLoop
  split
  · exact pipeSleep_ids _ _ _
  · unfold pipeWriteFinish
    simp only
    rw [ret_ids, afterWake_ids]
    exact setPipe_ids (write_id _ buf len)

theorem kernelPipeWrite_ids (pipeId : Int) (buf : Option Buffer) (len : Int) :
    (s.kernelPipeWrite pipeId buf len).ids = s.ids := by
  unfold kernelPipeWrite
  split
  · rfl
  · split
    · rfl
    · split
      · rfl
      · split
        · rfl
        · split
          · rfl
          · exact pipeWriteLoop_ids _ _ _

/-! ## Locks and condition variables -/

theorem kernelAcquire_ids (lockId : Int) :
    (s.kernelAcquire lockId).ids = s.ids := by
  unfold kernelAcquire
  simp only
  split
  · rfl
  · split
    · rfl
    · split
      · rfl
      · split
        · simp
        · simp

theorem kernelRelease_ids (lockId : Int) :
    (s.kernelRelease lockId).2.ids = s.ids := by
  unfold kernelRelease
  split
  · rfl
  · split
    · rfl
    · simp only
      split
      · rfl
      · simp

theorem kernelCvarWait_ids (cvarId lockId : Int) :
    (s.kernelCvarWait cvarId lockId).ids = s.ids := by
  unfold kernelCvarWait
  simp only
  split
  · rfl
  · split
    · rw [ret_ids, kernelRelease_ids]
    · rw [swapProcess_ids, kernelRelease_ids]

/-! ## The calls that work on ids -/

theorem kernelLockInit_ids : (s.kernelLockInit true).ids = s.ids.lockInit := by
  unfold kernelLockInit
  split
  · rename_i hlist
    show s.ids = { s.ids with locks := s.lockList.tail }
    rw [hlist]
    exact congrArg (fun locks => { s.ids with locks := locks }) hlist
  · rename_i hlist
    show _ = { s.ids with locks := s.lockList.tail }
    rw [hlist]
    rfl

theorem kernelCvarInit_ids : (s.kernelCvarInit true).ids = s.ids.cvarInit := by
  unfold kernelCvarInit
  simp only [Bool.not_true, Bool.false_eq_true, if_false]
  split
  · rename_i hlist
    show s.ids = { s.ids with cvars := s.cvarList.tail }
    rw [hlist]
    exact congrArg (fun cvars => { s.ids with cvars := cvars }) hlist
  · rename_i hlist
    show _ = { s.ids with cvars := s.cvarList.tail }
    rw [hlist]
    rfl

theorem kernelPipeInit_ids : (s.kernelPipeInit true).ids = s.ids.pipeInit := by
  have hid : (fun p => (s.addPipe.2.pipes p).id) = s.ids.pipeInit.pipeId := by
    funext p
    show (upd s.pipes s.npipes _ p).id =
      upd (fun p => (s.pipes p).id) s.npipes s.ids.nextPipeId p
    by_cases hp : p = s.npipes
    · rw [hp, upd_same, upd_same]
      rfl
    · rw [upd_other hp, upd_other hp]
  show ({ s.addPipe.2.ids with pipeId := fun p => (s.addPipe.2.pipes p).id } :
    IdView) = s.ids.pipeInit
  rw [hid]
  rfl

theorem kernelReclaim_ids (id : Int) :
    (s.kernelReclaim id).ids = s.ids.reclaim id := by
  unfold kernelReclaim IdView.reclaim
  split
  · rfl
  · split
    · rfl
    · unfold removePipe getPipe IdView.removePipe
      show _ = match s.pipeChain.find? fun p => decide ((s.pipes p).id = id) with
        | none => s.ids
        | some p =>
            if s.pipeChain.head? = some p then s.ids
            else { s.ids with chain := s.pipeChain.erase p }
      cases s.pipeChain.find? fun p => decide ((s.pipes p).id = id) with
      | none => rfl
      | some p =>
          simp only
          split
          · rfl
          · rfl

theorem trapKernelHandler_ids (ctx : UserContext) (c : Syscall) :
    (s.trapKernelHandler c).ids = s.ids.after (.trap ctx (.kernel c)) := by
  cases c with
  | fork newPid => exact kernelFork_ids newPid
  | exec args => exact execCase_ids args
  | exit exitCode => exact kernelExit_ids exitCode
  | wait nonNull => exact kernelWait_ids nonNull
  | getPid => rfl
  | brk addr => exact kernelBrk_ids addr
  | delay ticks => exact kernelDelay_ids ticks
  | ttyRead ttyId len => exact kernelTtyRead_ids ttyId len
  | ttyWrite ttyId buf len => exact kernelTtyWrite_ids ttyId buf len
  | pipeInit nonNull =>
      cases nonNull with
      | true => exact kernelPipeInit_ids
      | false => rfl
  | pipeRead pipeId nonNull len => exact kernelPipeRead_ids pipeId nonNull len
  | pipeWrite pipeId buf len => exact kernelPipeWrite_ids pipeId buf len
  | lockInit nonNull =>
      cases nonNull with
      | true => exact kernelLockInit_ids
      | false =>
          simp only [trapKernelHandler, kernelLockInit]
          split
          · rfl
          · rfl
  | acquire lockId => exact kernelAcquire_ids lockId
  | release lockId => exact kernelRelease_ids lockId
  | cvarInit nonNull =>
      cases nonNull with
      | true => exact kernelCvarInit_ids
      | false => rfl
  | cvarSignal cvarId =>
      simp only [trapKernelHandler, kernelCvarSignal]
      split
      · rfl
      · split
        · rfl
        · rfl
  | cvarBroadcast cvarId =>
      simp only [trapKernelHandler, kernelCvarBroadcast]
      split
      · rfl
      · rfl
  | cvarWait cvarId lockId => exact kernelCvarWait_ids cvarId lockId
  | reclaim id => exact kernelReclaim_ids id

theorem resume_ids : s.resume.ids = s.ids := by
  unfold resume
  split
  · rfl
  · rfl
  · simp
  · rfl
  · rfl
  · exact kernelWaitResume_ids _
  · rfl
  · exact ttyReadFinish_ids _ _
  · exact ttyWriteLoop_ids _ _ _ _ _ _
  · exact pipeReadLoop_ids _ _
  · exact pipeWriteLoop_ids _ _ _
  · simp [kernelAcquireResume]
  · exact kernelAcquire_ids _

/-- Every step works on the ids as its call does. -/
theorem take_ids (a : Label) : (s.take a).ids = s.ids.after a := by
  cases a with
  | trap ctx t =>
      cases t with
      | kernel c => exact trapKernelHandler_ids (s := s.enter ctx) ctx c
      | clock => exact swapProcess_ids _ _
      | illegal => exact swapProcess_ids _ _
      | math => exact swapProcess_ids _ _
      | memory addr beyondValid =>
          exact trapMemoryHandler_ids (s := s.enter ctx) addr beyondValid
      | ttyReceive t bytes =>
          exact trapTTYReceiveHandler_ids (s := s.enter ctx) t bytes
      | ttyTransmit t => exact trapTTYTransmitHandler_ids (s := s.enter ctx) t
  | resume => exact resume_ids

end Kernel

theorem Boot.kernelStart_ids {b : Boot} (h : b.kernelStart.mode = .user) :
    b.kernelStart.ids = b.setUpGlobals.ids :=
  (Kernel.ids_of_eraseMemory (kernelStart_eraseMemory h)).trans
    (by simp [started])

end Yalnix
