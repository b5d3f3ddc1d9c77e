import Yalnix.Kernel.Frame

/-!
# Processes and queues

`core` forgets memory and the contents of the devices.  What is left are the
processes and the queues, and the lemmas below say what the operations of the
kernel do there.
-/

namespace Yalnix

namespace Kernel

variable {s s' : Kernel}

/-! ## The core of a state -/

/-- The state without the contents of terminals and pipes, the id lists and the
events there. -/
def eraseDevices (s : Kernel) : Kernel :=
  { s with
    globalClockTicks := 0
    ttyReadbuffers := fun _ _ => 0
    ttyReadTrackers := fun _ => 0
    ttyWriteTrackers := fun _ => .terminalOpen
    transmitting := fun _ => 0
    pipes := fun p => ⟨fun _ => 0, 0, 0, false, (s.pipes p).queue⟩
    npipes := 0
    pipeChain := []
    lockList := []
    cvarList := []
    history :=
      { s.history with
        trace := s.history.trace.filter fun e => !e.atDevice } }

/-- The processes and the queues. -/
def core (s : Kernel) : Kernel := s.eraseMemory.eraseDevices

theorem core_of_eraseMemory (h : s'.eraseMemory = s.eraseMemory) :
    s'.core = s.core :=
  congrArg eraseDevices h

@[simp] theorem setUserPageTable_core (p : PcbPtr) (table : Nat → Pte) :
    (s.setUserPageTable p table).core = s.core := rfl

@[simp] theorem setKernelStackPt_core (p : PcbPtr) (table : Nat → Pte) :
    (s.setKernelStackPt p table).core = s.core := rfl

@[simp] theorem setPfnList_core (pool : List Nat) :
    (s.setPfnList pool).core = s.core := rfl

@[simp] theorem setKPt_core (table : Nat → Pte) :
    (s.setKPt table).core = s.core := rfl

@[simp] theorem setUctxt_core (p : PcbPtr) (ctx : UserContext) :
    (s.setUctxt p ctx).core = s.core := rfl

@[simp] theorem setReg0_core (p : PcbPtr) (value : Int) :
    (s.setReg0 p value).core = s.core := rfl

@[simp] theorem setReadBuffer_core (t : Nat) (buf : Buffer) :
    (s.setReadBuffer t buf).core = s.core := rfl

@[simp] theorem setReadTracker_core (t n : Nat) :
    (s.setReadTracker t n).core = s.core := rfl

@[simp] theorem setWriteTracker_core (t : Nat) (status : TerminalStatus) :
    (s.setWriteTracker t status).core = s.core := rfl

@[simp] theorem setTransmitting_core (t n : Nat) :
    (s.setTransmitting t n).core = s.core := rfl

@[simp] theorem setLockList_core (ids : List Int) :
    (s.setLockList ids).core = s.core := rfl

@[simp] theorem setCvarList_core (ids : List Int) :
    (s.setCvarList ids).core = s.core := rfl

@[simp] theorem setPipeChain_core (chain : List PipePtr) :
    (s.setPipeChain chain).core = s.core := rfl

@[simp] theorem setMode_core (mode : Mode) :
    (s.setMode mode).core = s.core.setMode mode := rfl

@[simp] theorem setReadyQ_core (q : List PcbPtr) :
    (s.setReadyQ q).core = s.core.setReadyQ q := rfl

@[simp] theorem setBlockedQ_core (q : List PcbPtr) :
    (s.setBlockedQ q).core = s.core.setBlockedQ q := rfl

@[simp] theorem setDefunctQ_core (q : List PcbPtr) :
    (s.setDefunctQ q).core = s.core.setDefunctQ q := rfl

@[simp] theorem setTtyReadQueue_core (t : Nat) (q : List PcbPtr) :
    (s.setTtyReadQueue t q).core = s.core.setTtyReadQueue t q := rfl

@[simp] theorem setTtyWriteQueue_core (t : Nat) (q : List PcbPtr) :
    (s.setTtyWriteQueue t q).core = s.core.setTtyWriteQueue t q := rfl

@[simp] theorem setBlockedCode_core (p : PcbPtr) (code : Int) :
    (s.setBlockedCode p code).core = s.core.setBlockedCode p code := rfl

@[simp] theorem setTtyTerminal_core (p : PcbPtr) (t : Nat) :
    (s.setTtyTerminal p t).core = s.core.setTtyTerminal p t := rfl

@[simp] theorem setClockTicks_core (p : PcbPtr) (ticks : Int) :
    (s.setClockTicks p ticks).core = s.core.setClockTicks p ticks := rfl

@[simp] theorem setExitCode_core (p : PcbPtr) (code : Int) :
    (s.setExitCode p code).core = s.core.setExitCode p code := rfl

@[simp] theorem setNumChildren_core (p : PcbPtr) (n : Int) :
    (s.setNumChildren p n).core = s.core.setNumChildren p n := rfl

@[simp] theorem setKernelContext_core (p : PcbPtr) (k : KernelContext) :
    (s.setKernelContext p k).core = s.core.setKernelContext p k := rfl

@[simp] theorem setTerminated_core (p : PcbPtr) :
    (s.setTerminated p).core = s.core.setTerminated p := rfl

@[simp] theorem setReporter_core (p : PcbPtr) (child : Option PcbPtr) :
    (s.setReporter p child).core = s.core.setReporter p child := rfl

@[simp] theorem setLockStatus_core (i status : Int) :
    (s.setLockStatus i status).core = s.core.setLockStatus i status := rfl

@[simp] theorem setCvarStatus_core (i status : Int) :
    (s.setCvarStatus i status).core = s.core.setCvarStatus i status := rfl


@[simp] theorem ret_core (result : Int) :
    (s.ret result).core = s.core.setMode .user := rfl

@[simp] theorem toUser_core : s.toUser.core = s.core.setMode .user := rfl

theorem emit_core_of_device {e : Event} (h : e.atDevice = true) :
    (s.emit e).core = s.core := by
  unfold core eraseMemory eraseDevices emit setHistory
  simp [h]

theorem emit_core_of_process {e : Event} (h : e.atDevice = false) :
    (s.emit e).core = s.core.emit e := by
  unfold core eraseMemory eraseDevices emit setHistory
  simp [h]

theorem queueAdd_core (q : Option QueueRef) (p : PcbPtr) :
    (s.queueAdd q p).core = s.core.queueAdd q p := by
  rcases q with _ | q
  · rfl
  · cases q <;> rfl

/-- Write the queue of a pipe. -/
def setPipeQueue (s : Kernel) (p : PipePtr) (q : List PcbPtr) : Kernel :=
  s.setPipe p { s.pipes p with queue := q }

theorem setPipe_core (p : PipePtr) (pipe : Pipe) :
    (s.setPipe p pipe).core = s.core.setPipeQueue p pipe.queue := by
  have hpipes : (fun x => (⟨fun _ => 0, 0, 0, false,
      (upd s.pipes p pipe x).queue⟩ : Pipe)) =
      upd (fun x => (⟨fun _ => 0, 0, 0, false, (s.pipes x).queue⟩ : Pipe)) p
        ⟨fun _ => 0, 0, 0, false, pipe.queue⟩ := by
    funext x
    by_cases hx : x = p
    · subst hx
      simp
    · simp [hx]
  unfold core eraseMemory eraseDevices setPipeQueue setPipe
  simp only [hpipes]

@[simp] theorem setPipeQueue_core (p : PipePtr) (q : List PcbPtr) :
    (s.setPipeQueue p q).core = s.core.setPipeQueue p q :=
  setPipe_core p _

theorem newProcess_core (active : Option PcbPtr) (pid : Nat) :
    (s.newProcess active pid).core = s.core.newProcess active pid := by
  cases active with
  | none => rfl
  | some active => rfl

/-! ## Switching -/

/-- `SwapProcess` on the core. -/
def swapped (s : Kernel) (move : Option QueueRef) (k : KernelContext) :
    Kernel :=
  if s.pcb.pid s.activePCB = s.pcb.pid s.idlePCB ∧ s.readyQ = [] then
    (s.setKernelContext s.activePCB k).setMode .kernel
  else
    s.switched
      (if s.pcb.pid s.activePCB = s.pcb.pid s.idlePCB then none else move) k

theorem switched_core (move : Option QueueRef) (k : KernelContext) :
    (s.switched move k).core = s.core.switched move k := by
  rcases move with _ | q
  · rfl
  · cases q <;> rfl

@[simp] theorem swapped_core (move : Option QueueRef) (k : KernelContext) :
    (s.swapped move k).core = s.core.swapped move k := by
  have hpid : s.core.pcb.pid = s.pcb.pid := rfl
  have hactive : s.core.activePCB = s.activePCB := rfl
  have hidle : s.core.idlePCB = s.idlePCB := rfl
  have hready : s.core.readyQ = s.readyQ := rfl
  simp only [swapped, hpid, hactive, hidle, hready]
  split
  · rfl
  · exact switched_core _ _

@[simp] theorem swapProcess_core (move : Option QueueRef) (k : KernelContext) :
    (s.swapProcess move k).core = s.core.swapped move k := by
  rw [← swapped_core]
  by_cases hidle : s.pcb.pid s.activePCB = s.pcb.pid s.idlePCB
  · by_cases hready : s.readyQ = []
    · simp only [swapProcess, swapped, hidle, hready, and_self, if_true]
    · simp only [swapProcess, swapped, hidle, hready, and_false, if_false,
        if_true]
      exact core_of_eraseMemory (reloadContext_eraseMemory _ _)
  · simp only [swapped, hidle, false_and, if_false]
    exact core_of_eraseMemory (swapProcess_other move k hidle)

/-! ## Exit -/

/-- `KernelExit` on the core, with the loops it makes. -/
def exitCleanup (s : Kernel) (code : Int) : Option QueueRef × Kernel :=
  let active := s.activePCB
  let s := (s.setExitCode active code).emit (.exit active code)
  if s.pcb.ppid active ≠ 0 ∨ 0 < s.pcb.numChildren active then s.exitLoops
  else (none, s)

def exited (s : Kernel) (code : Int) : Kernel :=
  ((s.exitCleanup code).2.setTerminated s.activePCB).swapped
    (s.exitCleanup code).1 .kernelExit

theorem exitLoops_core :
    s.core.exitLoops = (s.exitLoops.1, s.exitLoops.2.core) := by
  unfold exitLoops
  rfl

theorem exitCleanup_core (code : Int) :
    s.core.exitCleanup code =
      ((s.exitCleanup code).1, (s.exitCleanup code).2.core) := by
  have hemit : (s.core.setExitCode s.activePCB code).emit
      (.exit s.activePCB code) =
      ((s.setExitCode s.activePCB code).emit (.exit s.activePCB code)).core := by
    rw [emit_core_of_process rfl, setExitCode_core]
  have hactive : s.core.activePCB = s.activePCB := rfl
  simp only [exitCleanup, hactive, hemit, exitLoops_core]
  split
  · rw [if_pos (by assumption)]
  · rw [if_neg (by assumption)]

@[simp] theorem exited_core (code : Int) :
    (s.exited code).core = s.core.exited code := by
  have hactive : s.core.activePCB = s.activePCB := rfl
  simp only [exited, hactive, exitCleanup_core, swapped_core,
    setTerminated_core]

theorem kernelExit_core (code : Int) :
    (s.kernelExit code).core = s.core.exited code := by
  rw [← exited_core]
  unfold kernelExit exited exitCleanup
  simp only [swapProcess_core, swapped_core, setTerminated_core,
    setPfnList_core]

/-! ## Rechecking a blocked process -/

/-- Where `CheckBlocked` and the `queue_add` that follows it put a process. -/
inductive Recheck (s : Kernel) (p : PcbPtr) : Kernel → Prop where
  | ticking : s.pcb.blockedCode p = Blocked.delay → 0 < s.pcb.clockTicks p →
      Recheck s p ((s.setClockTicks p (s.pcb.clockTicks p - 1)).setBlockedQ
        (s.blockedQ ++ [p]))
  | due : s.pcb.blockedCode p = Blocked.delay → ¬ 0 < s.pcb.clockTicks p →
      Recheck s p ((s.setBlockedCode p Blocked.notBlocked).setReadyQ
        (s.readyQ ++ [p]))
  | opened : s.pcb.blockedCode p = Blocked.ttyTransmit →
      Recheck s p (((s.setBlockedCode p Blocked.notBlocked).setTtyTerminal p
        0).setReadyQ (s.readyQ ++ [p]))
  | closed : s.pcb.blockedCode p = Blocked.ttyTransmit → Recheck s p s
  | other : s.pcb.blockedCode p ≠ Blocked.delay →
      s.pcb.blockedCode p ≠ Blocked.ttyTransmit →
      Recheck s p (s.setBlockedQ (s.blockedQ ++ [p]))

theorem recheck_checkBlocked (s : Kernel) (p : PcbPtr) :
    Recheck s p ((s.checkBlocked p).2.queueAdd (s.checkBlocked p).1 p) := by
  unfold checkBlocked
  split
  · rename_i hdelay
    split
    · rename_i hticks
      exact .ticking hdelay hticks
    · rename_i hticks
      exact .due hdelay hticks
  · rename_i hdelay
    split
    · rename_i htransmit
      split
      · exact .opened htransmit
      · exact .closed htransmit
    · rename_i htransmit
      exact .other hdelay htransmit

/-- The outcome only depends on the core, up to the core. -/
theorem Recheck.of_core {p : PcbPtr} {r : Kernel} (h : Recheck s' p r)
    (hcore : s'.core = s.core) : ∃ r', Recheck s p r' ∧ r.core = r'.core := by
  have hcode : s'.pcb.blockedCode p = s.pcb.blockedCode p :=
    (congrArg (fun k : Kernel => k.pcb.blockedCode p) hcore :)
  have hticks : s'.pcb.clockTicks p = s.pcb.clockTicks p :=
    (congrArg (fun k : Kernel => k.pcb.clockTicks p) hcore :)
  have hblocked : s'.blockedQ = s.blockedQ :=
    (congrArg Kernel.blockedQ hcore :)
  have hready : s'.readyQ = s.readyQ := (congrArg Kernel.readyQ hcore :)
  cases h with
  | ticking h₁ h₂ =>
      rw [hcode] at h₁
      rw [hticks] at h₂
      exact ⟨_, .ticking h₁ h₂, by
        simp only [setBlockedQ_core, setClockTicks_core, hcore, hticks,
          hblocked]⟩
  | due h₁ h₂ =>
      rw [hcode] at h₁
      rw [hticks] at h₂
      exact ⟨_, .due h₁ h₂, by
        simp only [setReadyQ_core, setBlockedCode_core, hcore, hready]⟩
  | opened h₁ =>
      rw [hcode] at h₁
      exact ⟨_, .opened h₁, by
        simp only [setReadyQ_core, setBlockedCode_core, setTtyTerminal_core,
          hcore, hready]⟩
  | closed h₁ =>
      rw [hcode] at h₁
      exact ⟨_, .closed h₁, hcore⟩
  | other h₁ h₂ =>
      rw [hcode] at h₁ h₂
      exact ⟨_, .other h₁ h₂, by simp only [setBlockedQ_core, hcore, hblocked]⟩

/-- The scan of `blocked_q`, one popped process after another. -/
inductive Scanned : Nat → Kernel → Kernel → Prop where
  | done {s : Kernel} : Scanned 0 s s
  | empty {limit : Nat} {s r : Kernel} : s.blockedQ = [] →
      Scanned limit s r → Scanned (limit + 1) s r
  | next {limit : Nat} {s s' r : Kernel} {p : PcbPtr} {rest : List PcbPtr} :
      s.blockedQ = p :: rest → Recheck (s.setBlockedQ rest) p s' →
      Scanned limit s' r → Scanned (limit + 1) s r

theorem scanned_blockedScan (limit : Nat) (s : Kernel) :
    Scanned limit s (blockedScan limit s) := by
  induction limit generalizing s with
  | zero => exact .done
  | succ limit ih =>
      unfold blockedScan
      split
      · rename_i hempty
        exact .empty hempty (ih s)
      · rename_i p rest hcons
        exact .next hcons (recheck_checkBlocked _ _) (ih _)

theorem Recheck.woken {p : PcbPtr} {r : Kernel} (h : Recheck s p r) :
    r.activePCB = s.activePCB ∧ ∃ woken, r.readyQ = s.readyQ ++ woken := by
  cases h with
  | ticking => exact ⟨rfl, [], (List.append_nil _).symm⟩
  | due => exact ⟨rfl, [p], rfl⟩
  | opened => exact ⟨rfl, [p], rfl⟩
  | closed => exact ⟨rfl, [], (List.append_nil _).symm⟩
  | other => exact ⟨rfl, [], (List.append_nil _).symm⟩

/-- The scan only appends to `ready_q`. -/
theorem Scanned.woken {limit : Nat} {r : Kernel} (h : Scanned limit s r) :
    r.activePCB = s.activePCB ∧ ∃ woken, r.readyQ = s.readyQ ++ woken := by
  induction h with
  | done => exact ⟨rfl, [], (List.append_nil _).symm⟩
  | empty _ _ ih => exact ih
  | next _ hcheck _ ih =>
      obtain ⟨hactive, woken, hready⟩ := hcheck.woken
      obtain ⟨hactive', woken', hready'⟩ := ih
      refine ⟨hactive'.trans hactive, woken ++ woken', ?_⟩
      rw [hready', hready, List.append_assoc]
      rfl

/-- The scan changes no saved context. -/
theorem Scanned.context {limit : Nat} {r : Kernel} (h : Scanned limit s r) :
    r.pcb.kernelContext = s.pcb.kernelContext := by
  induction h with
  | done => rfl
  | empty _ _ ih => exact ih
  | next _ hcheck _ ih =>
      rw [ih]
      cases hcheck <;> rfl

end Kernel

end Yalnix
