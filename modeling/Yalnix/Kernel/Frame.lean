import Yalnix.Kernel.Machine

/-!
# What the operations leave alone

Loading a program, switching stacks and copying kernel contexts write memory
tables and saved user contexts only.  `eraseMemory` forgets these, so that such
an operation is seen not to change the erased state.  `devices` keeps what the
terminals and the pipes hold, which most of the kernel never writes.
-/

namespace Yalnix

namespace Kernel

variable {s s' : Kernel}

/-! ## Memory -/

/-- The state without page tables, the frame pool and saved user contexts. -/
def eraseMemory (s : Kernel) : Kernel :=
  { s with
    pcb :=
      { s.pcb with
        userContext := fun _ => ⟨0, 0⟩
        userPageTable := fun _ _ => invalidPte
        userStackPtIndex := fun _ => 0
        userHeapPtIndex := fun _ => 0
        userTextPtIndex := fun _ => 0
        userDataPtIndex := fun _ => 0
        kernelStackPt := fun _ _ => invalidPte }
    pfnList := []
    kPt := fun _ => invalidPte
    ptbr1 := 0
    uctxt := fun _ => ⟨0, 0⟩
    reg0 := fun _ => 0 }

@[simp] theorem setTextIndex_eraseMemory (p : PcbPtr) (i : Int) :
    (s.setTextIndex p i).eraseMemory = s.eraseMemory := rfl

@[simp] theorem setDataIndex_eraseMemory (p : PcbPtr) (i : Int) :
    (s.setDataIndex p i).eraseMemory = s.eraseMemory := rfl

@[simp] theorem setHeapIndex_eraseMemory (p : PcbPtr) (i : Int) :
    (s.setHeapIndex p i).eraseMemory = s.eraseMemory := rfl

@[simp] theorem setStackIndex_eraseMemory (p : PcbPtr) (i : Int) :
    (s.setStackIndex p i).eraseMemory = s.eraseMemory := rfl

@[simp] theorem setUserPageTable_eraseMemory (p : PcbPtr)
    (table : Nat → Pte) :
    (s.setUserPageTable p table).eraseMemory = s.eraseMemory := rfl

@[simp] theorem setKernelStackPt_eraseMemory (p : PcbPtr)
    (table : Nat → Pte) :
    (s.setKernelStackPt p table).eraseMemory = s.eraseMemory := rfl

@[simp] theorem setUserContext_eraseMemory (p : PcbPtr) (ctx : UserContext) :
    (s.setUserContext p ctx).eraseMemory = s.eraseMemory := rfl

@[simp] theorem setPfnList_eraseMemory (pool : List Nat) :
    (s.setPfnList pool).eraseMemory = s.eraseMemory := rfl

@[simp] theorem setKPt_eraseMemory (table : Nat → Pte) :
    (s.setKPt table).eraseMemory = s.eraseMemory := rfl

@[simp] theorem setPtbr1_eraseMemory (p : PcbPtr) :
    (s.setPtbr1 p).eraseMemory = s.eraseMemory := rfl

@[simp] theorem setUctxt_eraseMemory (p : PcbPtr) (ctx : UserContext) :
    (s.setUctxt p ctx).eraseMemory = s.eraseMemory := rfl

@[simp] theorem setReg0_eraseMemory (p : PcbPtr) (value : Int) :
    (s.setReg0 p value).eraseMemory = s.eraseMemory := rfl

@[simp] theorem ret_eraseMemory (result : Int) :
    (s.ret result).eraseMemory = (s.setMode .user).eraseMemory := rfl

theorem copyIndices_eraseMemory (child parent : PcbPtr) :
    (s.copyIndices child parent).eraseMemory = s.eraseMemory := by
  simp only [copyIndices, setTextIndex_eraseMemory, setDataIndex_eraseMemory,
    setHeapIndex_eraseMemory, setStackIndex_eraseMemory]

theorem discardImage_eraseMemory (l : Layout) (p : PcbPtr) :
    (s.discardImage l p).eraseMemory = s.eraseMemory := by
  simp only [discardImage, setPfnList_eraseMemory,
    setUserPageTable_eraseMemory, setPtbr1_eraseMemory,
    setUserContext_eraseMemory]

theorem loadSegment_eraseMemory {p : PcbPtr} {first : Int} {count : Nat}
    {ok : Bool} (h : s.loadSegment p first count = some (ok, s')) :
    s'.eraseMemory = s.eraseMemory := by
  unfold loadSegment at h
  split at h
  · cases h
  · cases h
    simp only [setPfnList_eraseMemory, setUserPageTable_eraseMemory]
  · cases h
    simp only [setPfnList_eraseMemory, setUserPageTable_eraseMemory]

theorem readImage_eraseMemory {file : Executable} {li : LoadInfo} {l : Layout}
    {p : PcbPtr} {code : Int} (h : s.readImage file li l p = some (code, s')) :
    s'.eraseMemory = s.eraseMemory := by
  rcases readImage_cases h with ⟨-, rfl, -⟩ | ⟨-, -, rfl⟩
  · rfl
  · simp only [setUserContext_eraseMemory, setUserPageTable_eraseMemory]

theorem loadImage_eraseMemory {file : Executable} {li : LoadInfo} {l : Layout}
    {p : PcbPtr} {code : Int} (h : s.loadImage file li l p = some (code, s')) :
    s'.eraseMemory = s.eraseMemory := by
  unfold loadImage at h
  simp only at h
  split at h
  · cases h
  · rename_i htext
    cases h
    have h₁ := loadSegment_eraseMemory htext
    rwa [setTextIndex_eraseMemory, discardImage_eraseMemory] at h₁
  · rename_i s₁ htext
    have h₁ := loadSegment_eraseMemory htext
    rw [setTextIndex_eraseMemory, discardImage_eraseMemory] at h₁
    split at h
    · cases h
    · rename_i hdata
      cases h
      have h₂ := loadSegment_eraseMemory hdata
      rw [setDataIndex_eraseMemory] at h₂
      exact h₂.trans h₁
    · rename_i s₂ hdata
      have h₂ := loadSegment_eraseMemory hdata
      rw [setDataIndex_eraseMemory, h₁] at h₂
      split at h
      · cases h
      · rename_i hstack
        cases h
        have h₃ := loadSegment_eraseMemory hstack
        rw [setStackIndex_eraseMemory, setHeapIndex_eraseMemory] at h₃
        exact h₃.trans h₂
      · rename_i s₃ hstack
        have h₃ := loadSegment_eraseMemory hstack
        rw [setStackIndex_eraseMemory, setHeapIndex_eraseMemory, h₂] at h₃
        exact (readImage_eraseMemory h).trans h₃

theorem loadProgram_eraseMemory {file : Executable}
    {args : List (List UInt8)} {p : PcbPtr} {code : Int}
    (h : s.loadProgram file args p = some (code, s')) :
    s'.eraseMemory = s.eraseMemory := by
  unfold loadProgram at h
  split at h
  · cases h
    rfl
  · split at h
    · cases h
      rfl
    · split at h
      · cases h
        rfl
      · split at h
        · cases h
          rfl
        · exact loadImage_eraseMemory h

theorem kernelExec_eraseMemory {a : ExecArgs} {code : Int}
    (h : s.kernelExec a = some (code, s')) :
    s'.eraseMemory = s.eraseMemory := by
  unfold kernelExec at h
  split at h
  · cases h
    rfl
  · simp only at h
    split at h
    · cases h
    · rename_i s₁ hload
      have h₁ := loadProgram_eraseMemory hload
      rw [setUserContext_eraseMemory] at h₁
      split at h
      · cases h
        exact h₁
      · cases h
        exact h₁

/-- `KernelBrk` returns to user mode, or is undefined, with new tables. -/
theorem kernelBrk_eraseMemory (addr : Nat) :
    (s.kernelBrk addr).eraseMemory = (s.setMode .user).eraseMemory ∨
      (s.kernelBrk addr).eraseMemory = (s.setMode .undefined).eraseMemory := by
  unfold kernelBrk
  simp only
  split
  · exact .inl rfl
  · split
    · exact .inl rfl
    · split
      · split
        · exact .inr rfl
        · split
          · exact .inl rfl
          · split
            · exact .inl rfl
            · exact .inl rfl
      · split
        · exact .inr rfl
        · split
          · exact .inl rfl
          · exact .inl rfl

/-- A memory trap ends the process, or only changes tables and the mode. -/
theorem trapMemoryHandler_eraseMemory (addr : Nat) (beyondValid : Bool) :
    ((faultTarget addr < 0 ∨
          s.faultValid (faultTarget addr) beyondValid = true) ∧
        s.trapMemoryHandler addr beyondValid = s.kernelExit Rc.error) ∨
      (s.trapMemoryHandler addr beyondValid).eraseMemory =
        (s.setMode .user).eraseMemory ∨
      (s.trapMemoryHandler addr beyondValid).eraseMemory =
        (s.setMode .undefined).eraseMemory := by
  unfold trapMemoryHandler
  simp only
  split
  · rename_i hfatal
    exact .inl ⟨hfatal, rfl⟩
  · split
    · exact .inr (.inr rfl)
    · exact .inr (.inl rfl)

theorem reloadContext_eraseMemory (next : PcbPtr) (mode : Mode) :
    ((s.reloadContext next).setMode mode).eraseMemory =
      (s.setMode mode).eraseMemory := by
  unfold reloadContext
  split
  · rfl
  · rfl

/-- `KCCopy` on a state with an unmapped Region 0 page. -/
theorem kcCopy_eraseMemory (child : PcbPtr) (k : KernelContext) :
    (s.kcCopy child k).eraseMemory = (s.setMode .undefined).eraseMemory ∨
      (s.kcCopy child k).eraseMemory =
        (s.setKernelContext child k).eraseMemory := by
  unfold kcCopy
  split
  · exact .inl rfl
  · exact .inr rfl

/-! ## New processes -/

/-- What `init_process` writes besides memory. -/
def newProcess (s : Kernel) (active : Option PcbPtr) (pid : Nat) : Kernel :=
  { s with
    pcb :=
      { s.pcb with
        pid := upd s.pcb.pid s.npcb pid
        ppid := upd s.pcb.ppid s.npcb
          (match active with
          | none => pid
          | some active => s.pcb.pid active)
        numChildren :=
          match active with
          | none => upd s.pcb.numChildren s.npcb 0
          | some active =>
              upd (upd s.pcb.numChildren s.npcb 0) active
                (upd s.pcb.numChildren s.npcb 0 active + 1)
        clockTicks := upd s.pcb.clockTicks s.npcb 0
        exitCode := upd s.pcb.exitCode s.npcb 0
        blockedCode := upd s.pcb.blockedCode s.npcb Blocked.notBlocked
        ttyTerminal := upd s.pcb.ttyTerminal s.npcb 0 }
    npcb := s.npcb + 1
    history :=
      { s.history with
        creator := upd s.history.creator s.npcb (active.getD s.npcb)
        usedPids := pid :: s.history.usedPids } }

theorem initProcess_eraseMemory {active : Option PcbPtr} {pid : Nat}
    {ctx : UserContext} {p : PcbPtr}
    (h : s.initProcess active pid ctx = some (p, s')) :
    p = s.npcb ∧ s'.eraseMemory = (s.newProcess active pid).eraseMemory := by
  unfold initProcess at h
  simp only at h
  split at h
  · cases h
  · cases h
    cases active with
    | none => exact ⟨rfl, rfl⟩
    | some active => exact ⟨rfl, rfl⟩

theorem newProcess_eraseMemory (h : s'.eraseMemory = s.eraseMemory)
    (active : Option PcbPtr) (pid : Nat) :
    (s'.newProcess active pid).eraseMemory =
      (s.newProcess active pid).eraseMemory := by
  have herase := congrArg (fun k : Kernel =>
    (k.newProcess active pid).eraseMemory) h
  cases active with
  | none => exact herase
  | some active => exact herase

/-! ## Switching -/

/-- The process that `SwapProcess` makes active. -/
def nextProcess (s : Kernel) : PcbPtr := s.readyQ.headD s.idlePCB

/-- `SwapProcess` without memory and contexts: what happens to the queues. -/
def switched (s : Kernel) (move : Option QueueRef) (k : KernelContext) :
    Kernel :=
  ((((s.setReadyQ s.readyQ.tail).queueAdd move s.activePCB).setActivePCB
    s.nextProcess).setKernelContext s.activePCB k).setMode .kernel

/-- Every other process is put on the queue it was sent to. -/
theorem swapProcess_other (move : Option QueueRef) (k : KernelContext)
    (hother : s.pcb.pid s.activePCB ≠ s.pcb.pid s.idlePCB) :
    (s.swapProcess move k).eraseMemory = (s.switched move k).eraseMemory := by
  unfold swapProcess switched nextProcess
  simp only [hother, false_and, if_false]
  rcases move with _ | q
  · exact (reloadContext_eraseMemory _ _).trans rfl
  · cases q <;> exact (reloadContext_eraseMemory _ _).trans rfl

end Kernel

/-! ## Boot -/

/-- Idle runs and the first program is ready. -/
def Boot.started (b : Boot) : Kernel :=
  let s := (b.setUpGlobals.newProcess none 0).newProcess (some 0) b.progPid
  (s.setReadyQ [1]).setKernelContext 1 .kernelStart

theorem Boot.startIdle_eraseMemory {b : Boot} {idle : PcbPtr} {s : Kernel}
    (h : b.startIdle = some (idle, s)) :
    idle = 0 ∧
      s.eraseMemory = (b.setUpGlobals.newProcess none 0).eraseMemory := by
  unfold startIdle at h
  split at h
  · cases h
  · rename_i s₁ hinit
    obtain ⟨hidle, h₁⟩ := Kernel.initProcess_eraseMemory hinit
    split at h
    · cases h
    · rename_i code s₂ hload
      have h₂ := Kernel.loadProgram_eraseMemory hload
      cases h
      have hbase := h₂.trans h₁
      have hactive : s₂.activePCB = 0 := congrArg Kernel.activePCB hbase
      have hidlePCB : s₂.idlePCB = 0 := congrArg Kernel.idlePCB hbase
      have hzero : idle = 0 := hidle
      subst hzero
      refine ⟨rfl, Eq.trans ?_ hbase⟩
      rcases s₂ with ⟨⟩
      cases hactive
      cases hidlePCB
      rfl

theorem Boot.kernelStart_eraseMemory {b : Boot}
    (h : b.kernelStart.mode = .user) :
    b.kernelStart.eraseMemory = b.started.eraseMemory := by
  unfold kernelStart at h ⊢
  split at h
  · cases h
  · rename_i idle s₁ hidle
    obtain ⟨rfl, h₁⟩ := startIdle_eraseMemory hidle
    split at h
    · split at h
      · cases h
      · cases h
    · rename_i prog s₂ hprog
      obtain ⟨hprog', h₂⟩ := Kernel.initProcess_eraseMemory hprog
      have hnpcb : s₁.npcb = 1 := congrArg Kernel.npcb h₁
      split at h
      · cases h
      · rename_i code s₃ hload
        have h₃ := Kernel.loadProgram_eraseMemory hload
        split at h
        · cases h
        · rename_i hcode
          simp only [if_neg hcode]
          have hbase := h₃.trans (h₂.trans
            (Kernel.newProcess_eraseMemory h₁ (some 0) b.progPid))
          rw [hprog', hnpcb] at h ⊢
          simp only [startProg] at h ⊢
          rcases Kernel.kcCopy_eraseMemory (s := ((s₃.queueAdd
            (some .readyQ) 1).setPtbr1 0).setUctxt 0 (s₃.pcb.userContext 0))
            1 .kernelStart with hcopy | hcopy
          · have hmode := congrArg Kernel.mode hcopy
            exact absurd (h.symm.trans (hmode :)) (by simp [
              Kernel.eraseMemory, Kernel.setMode])
          · refine hcopy.trans ?_
            have hready : s₃.readyQ = [] := congrArg Kernel.readyQ hbase
            have herase := congrArg (fun k : Kernel =>
              (k.setReadyQ [1]).setKernelContext 1 .kernelStart) hbase
            rw [Kernel.queueAdd, hready]
            exact herase

/-! ## Devices -/

/-- The events at the terminals and at the pipes. -/
def Event.atDevice : Event → Bool
  | .exit _ _ => false
  | .waitReturn _ _ _ _ => false
  | _ => true

/-- What the terminals and the pipes hold, and what happened there. -/
structure Devices where
  readBuffers : Nat → Buffer
  readTrackers : Nat → Nat
  writeTrackers : Nat → TerminalStatus
  transmitting : Nat → Nat
  pipeBytes : PipePtr → Buffer × Nat
  npipes : Nat
  events : List Event

namespace Kernel

variable {s s' : Kernel}

def devices (s : Kernel) : Devices :=
  { readBuffers := s.ttyReadbuffers
    readTrackers := s.ttyReadTrackers
    writeTrackers := s.ttyWriteTrackers
    transmitting := s.transmitting
    pipeBytes := fun p => ((s.pipes p).buf, (s.pipes p).plen)
    npipes := s.npipes
    events := s.history.trace.filter Event.atDevice }

theorem devices_of_eraseMemory (h : s'.eraseMemory = s.eraseMemory) :
    s'.devices = s.devices := by
  have hdevices := congrArg Kernel.devices h
  exact hdevices

@[simp] theorem setMode_devices (mode : Mode) :
    (s.setMode mode).devices = s.devices := rfl

@[simp] theorem ret_devices (result : Int) :
    (s.ret result).devices = s.devices := rfl

@[simp] theorem setActivePCB_devices (p : PcbPtr) :
    (s.setActivePCB p).devices = s.devices := rfl

@[simp] theorem setReadyQ_devices (q : List PcbPtr) :
    (s.setReadyQ q).devices = s.devices := rfl

@[simp] theorem setBlockedQ_devices (q : List PcbPtr) :
    (s.setBlockedQ q).devices = s.devices := rfl

@[simp] theorem setDefunctQ_devices (q : List PcbPtr) :
    (s.setDefunctQ q).devices = s.devices := rfl

@[simp] theorem setTtyReadQueue_devices (t : Nat) (q : List PcbPtr) :
    (s.setTtyReadQueue t q).devices = s.devices := rfl

@[simp] theorem setTtyWriteQueue_devices (t : Nat) (q : List PcbPtr) :
    (s.setTtyWriteQueue t q).devices = s.devices := rfl

@[simp] theorem setPcb_devices (pcb : PcbTable) :
    (s.setPcb pcb).devices = s.devices := rfl

@[simp] theorem setExitCode_devices (p : PcbPtr) (code : Int) :
    (s.setExitCode p code).devices = s.devices := rfl

@[simp] theorem setBlockedCode_devices (p : PcbPtr) (code : Int) :
    (s.setBlockedCode p code).devices = s.devices := rfl

@[simp] theorem setTtyTerminal_devices (p : PcbPtr) (t : Nat) :
    (s.setTtyTerminal p t).devices = s.devices := rfl

@[simp] theorem setClockTicks_devices (p : PcbPtr) (ticks : Int) :
    (s.setClockTicks p ticks).devices = s.devices := rfl

@[simp] theorem setNumChildren_devices (p : PcbPtr) (n : Int) :
    (s.setNumChildren p n).devices = s.devices := rfl

@[simp] theorem setTerminated_devices (p : PcbPtr) :
    (s.setTerminated p).devices = s.devices := rfl

@[simp] theorem setReporter_devices (p : PcbPtr) (c : Option PcbPtr) :
    (s.setReporter p c).devices = s.devices := rfl

@[simp] theorem setKPt_devices (table : Nat → Pte) :
    (s.setKPt table).devices = s.devices := rfl

@[simp] theorem setPfnList_devices (pool : List Nat) :
    (s.setPfnList pool).devices = s.devices := rfl

@[simp] theorem setUserPageTable_devices (p : PcbPtr) (table : Nat → Pte) :
    (s.setUserPageTable p table).devices = s.devices := rfl

@[simp] theorem setReg0_devices (p : PcbPtr) (value : Int) :
    (s.setReg0 p value).devices = s.devices := rfl

@[simp] theorem setUctxt_devices (p : PcbPtr) (ctx : UserContext) :
    (s.setUctxt p ctx).devices = s.devices := rfl

@[simp] theorem setLockStatus_devices (lockId status : Int) :
    (s.setLockStatus lockId status).devices = s.devices := rfl

@[simp] theorem setLockAquireQueue_devices (i : Int) (q : List PcbPtr) :
    (s.setLockAquireQueue i q).devices = s.devices := rfl

theorem emit_devices {e : Event} (h : e.atDevice = false) :
    (s.emit e).devices = s.devices := by
  unfold devices emit setHistory
  simp only [List.filter_append, List.filter_cons, h, List.filter_nil,
    Bool.false_eq_true, if_false, List.append_nil]

theorem queueAdd_devices (q : Option QueueRef) (p : PcbPtr) :
    (s.queueAdd q p).devices = s.devices := by
  rcases q with _ | q
  · rfl
  · cases q <;> rfl

/-- Writing a pipe without touching its bytes. -/
theorem setPipe_devices {p : PipePtr} {pipe : Pipe}
    (hbuf : pipe.buf = (s.pipes p).buf) (hlen : pipe.plen = (s.pipes p).plen) :
    (s.setPipe p pipe).devices = s.devices := by
  have hpipes : (fun q => ((upd s.pipes p pipe q).buf,
      (upd s.pipes p pipe q).plen)) =
      fun q => ((s.pipes q).buf, (s.pipes q).plen) := by
    funext q
    by_cases hq : q = p
    · subst hq
      simp only [Function.update_self, hbuf, hlen]
    · simp only [Function.update_of_ne hq]
  unfold devices setPipe
  simp only [hpipes]

theorem swapProcess_devices (q : Option QueueRef) (k : KernelContext) :
    (s.swapProcess q k).devices = s.devices := by
  unfold swapProcess
  simp only
  split
  · rfl
  · rw [devices_of_eraseMemory (reloadContext_eraseMemory _ _)]
    exact queueAdd_devices _ _

theorem checkBlocked_devices (p : PcbPtr) :
    (s.checkBlocked p).2.devices = s.devices := by
  unfold checkBlocked
  split
  · split <;> rfl
  · split
    · split <;> rfl
    · rfl

theorem initProcess_devices {active : Option PcbPtr} {pid : Nat}
    {ctx : UserContext} {p : PcbPtr}
    (h : s.initProcess active pid ctx = some (p, s')) :
    s'.devices = s.devices := by
  unfold initProcess at h
  simp only at h
  split at h
  · cases h
  · cases h
    rfl

theorem kcCopy_devices (child : PcbPtr) (k : KernelContext) :
    (s.kcCopy child k).devices = s.devices := by
  rcases kcCopy_eraseMemory (s := s) child k with h | h
  · exact (devices_of_eraseMemory h).trans rfl
  · exact (devices_of_eraseMemory h).trans rfl

theorem forkReady_devices (child : PcbPtr) :
    (s.forkReady child).devices = s.devices := by
  unfold forkReady
  simp only
  split
  · rw [kcCopy_devices, queueAdd_devices]
  · rw [ret_devices, kcCopy_devices, queueAdd_devices]

theorem forkCopy_devices (child parent : PcbPtr) (reserved : Nat) :
    (s.forkCopy child parent reserved).devices = s.devices := by
  unfold forkCopy
  split
  · simp only [ret_devices, setKPt_devices, setPfnList_devices,
      setUserPageTable_devices]
  · simp only [forkReady_devices, setKPt_devices, setPfnList_devices,
      setUserPageTable_devices]

theorem kernelFork_devices (pid : Nat) :
    (s.kernelFork pid).devices = s.devices := by
  unfold kernelFork
  split
  · rfl
  · rename_i child forked hinit
    have hforked := initProcess_devices hinit
    have hcopied := devices_of_eraseMemory
      (copyIndices_eraseMemory (s := forked) child s.activePCB)
    simp only
    split
    · rw [ret_devices, hcopied, hforked]
    · rw [forkCopy_devices, hcopied, hforked]

theorem exitLoops_devices : s.exitLoops.2.devices = s.devices := by
  unfold exitLoops
  rfl

theorem kernelExit_devices (code : Int) :
    (s.kernelExit code).devices = s.devices := by
  unfold kernelExit
  simp only
  rw [swapProcess_devices, setTerminated_devices, setPfnList_devices]
  split
  · rw [exitLoops_devices, emit_devices rfl, setExitCode_devices]
  · rw [emit_devices rfl, setExitCode_devices]

theorem execCase_devices (a : ExecArgs) :
    (s.execCase a).devices = s.devices := by
  unfold execCase
  split
  · rfl
  · rename_i hexec
    have hload := devices_of_eraseMemory (kernelExec_eraseMemory hexec)
    split
    · rw [ret_devices, setUctxt_devices, hload]
    · rw [kernelExit_devices, setReg0_devices, hload]

theorem kernelWait_devices (nonNull : Bool) :
    (s.kernelWait nonNull).devices = s.devices := by
  unfold kernelWait
  simp only
  split
  · rw [ret_devices, emit_devices rfl]
  · split
    · rw [ret_devices, emit_devices rfl, setNumChildren_devices,
        setDefunctQ_devices]
    · rw [swapProcess_devices, setBlockedCode_devices, setDefunctQ_devices]

theorem kernelWaitResume_devices (setCodePid : Nat) :
    (s.kernelWaitResume setCodePid).devices = s.devices := by
  unfold kernelWaitResume
  simp only
  split
  · rw [ret_devices, setReporter_devices, setBlockedCode_devices,
      emit_devices rfl]
  · rw [ret_devices, emit_devices rfl]

theorem kernelDelay_devices (ticks : Int) :
    (s.kernelDelay ticks).devices = s.devices := by
  unfold kernelDelay
  split
  · rfl
  · split
    · rfl
    · rw [swapProcess_devices, setBlockedCode_devices, setClockTicks_devices]

theorem kernelBrk_devices (addr : Nat) :
    (s.kernelBrk addr).devices = s.devices := by
  rcases kernelBrk_eraseMemory (s := s) addr with h | h
  · exact (devices_of_eraseMemory h).trans rfl
  · exact (devices_of_eraseMemory h).trans rfl

theorem trapMemoryHandler_devices (addr : Nat) (beyondValid : Bool) :
    (s.trapMemoryHandler addr beyondValid).devices = s.devices := by
  rcases trapMemoryHandler_eraseMemory (s := s) addr beyondValid with
    ⟨-, h⟩ | h | h
  · rw [h]
    exact kernelExit_devices _
  · exact (devices_of_eraseMemory h).trans rfl
  · exact (devices_of_eraseMemory h).trans rfl

theorem blockedScan_devices (limit : Nat) :
    (blockedScan limit s).devices = s.devices := by
  induction limit generalizing s with
  | zero => rfl
  | succ limit ih =>
      unfold blockedScan
      split
      · exact ih
      · rw [ih, queueAdd_devices, checkBlocked_devices, setBlockedQ_devices]

theorem kernelAcquire_devices (lockId : Int) :
    (s.kernelAcquire lockId).devices = s.devices := by
  unfold kernelAcquire
  simp only
  split
  · rfl
  · split
    · rfl
    · split
      · rfl
      · split
        · rw [swapProcess_devices, setBlockedCode_devices]
        · rw [ret_devices, setLockStatus_devices]

theorem kernelRelease_devices (lockId : Int) :
    (s.kernelRelease lockId).2.devices = s.devices := by
  unfold kernelRelease
  split
  · rfl
  · split
    · rfl
    · simp only
      split
      · rfl
      · rw [queueAdd_devices, setLockAquireQueue_devices,
          setLockStatus_devices]

theorem kernelCvarWait_devices (cvarId lockId : Int) :
    (s.kernelCvarWait cvarId lockId).devices = s.devices := by
  unfold kernelCvarWait
  simp only
  split
  · rfl
  · have hrelease := kernelRelease_devices (s := s) lockId
    split
    · rw [ret_devices, hrelease]
    · rw [swapProcess_devices, hrelease]

theorem kernelReclaim_devices (id : Int) :
    (s.kernelReclaim id).devices = s.devices := by
  unfold kernelReclaim removePipe
  split
  · rfl
  · split
    · rfl
    · split
      · rfl
      · split <;> rfl

end Kernel

theorem Boot.kernelStart_devices {b : Boot} (h : b.kernelStart.mode = .user) :
    b.kernelStart.devices = b.setUpGlobals.devices :=
  (Kernel.devices_of_eraseMemory (kernelStart_eraseMemory h)).trans rfl

/-- The system calls that move bytes at a terminal or a pipe. -/
def Syscall.usesDevice : Syscall → Bool
  | .ttyRead _ _ => true
  | .ttyWrite _ _ _ => true
  | .pipeInit _ => true
  | .pipeRead _ _ _ => true
  | .pipeWrite _ _ _ => true
  | _ => false

/-- Every other system call leaves the devices alone. -/
theorem Kernel.trapKernelHandler_devices {s : Kernel} {call : Syscall}
    (h : call.usesDevice = false) :
    (s.trapKernelHandler call).devices = s.devices := by
  cases call with
  | fork newPid => exact kernelFork_devices newPid
  | exec args => exact execCase_devices args
  | exit exitCode => exact kernelExit_devices exitCode
  | wait nonNull => exact kernelWait_devices nonNull
  | getPid => rfl
  | brk addr => exact kernelBrk_devices addr
  | delay ticks => exact kernelDelay_devices ticks
  | lockInit nonNull =>
      simp only [trapKernelHandler, kernelLockInit]
      split <;> split <;> rfl
  | acquire lockId => exact kernelAcquire_devices lockId
  | release lockId => exact kernelRelease_devices lockId
  | cvarInit nonNull =>
      simp only [trapKernelHandler, kernelCvarInit]
      split
      · rfl
      · split <;> rfl
  | cvarSignal cvarId =>
      simp only [trapKernelHandler, kernelCvarSignal]
      split
      · rfl
      · split <;> rfl
  | cvarBroadcast cvarId =>
      simp only [trapKernelHandler, kernelCvarBroadcast]
      split <;> rfl
  | cvarWait cvarId lockId => exact kernelCvarWait_devices cvarId lockId
  | reclaim id => exact kernelReclaim_devices id
  | ttyRead _ _ => cases h
  | ttyWrite _ _ _ => cases h
  | pipeInit _ => cases h
  | pipeRead _ _ _ => cases h
  | pipeWrite _ _ _ => cases h

end Yalnix
