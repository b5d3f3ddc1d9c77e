import Yalnix.Memory.View

/-!
# When a pipe call blocks

`being_used` is set and cleared within one call, and no switch comes between.  So
no call ever finds it set: a `PipeWrite` never waits, and a `PipeRead` waits for
bytes only.
-/

namespace Yalnix

/-- Asleep in the `while` of `KernelPipeWrite`. -/
def KernelContext.waitsToWrite : KernelContext → Bool
  | .kernelPipeWrite _ _ _ => true
  | _ => false

namespace Kernel

variable {s s' : Kernel}

/-- Every pipe is free, and nobody waits for one to become so. -/
structure PipesFree (s : Kernel) : Prop where
  free : ∀ p, (s.pipes p).beingUsed = false
  contexts : ∀ p, (s.pcb.kernelContext p).waitsToWrite = false

namespace PipesFree

theorem of_eq (h : s.PipesFree) (hpipes : s'.pipes = s.pipes)
    (hcontexts : s'.pcb.kernelContext = s.pcb.kernelContext) : s'.PipesFree where
  free := by simpa only [hpipes] using h.free
  contexts := by simpa only [hcontexts] using h.contexts

theorem of_eraseMemory (h : s.PipesFree)
    (herase : s'.eraseMemory = s.eraseMemory) : s'.PipesFree :=
  h.of_eq (congrArg Kernel.pipes herase :)
    (congrArg (fun k : Kernel => k.pcb.kernelContext) herase :)

theorem setMode (h : s.PipesFree) (mode : Mode) : (s.setMode mode).PipesFree :=
  h.of_eq rfl rfl

theorem ret (h : s.PipesFree) (result : Int) : (s.ret result).PipesFree :=
  h.of_eq rfl rfl

theorem emit (h : s.PipesFree) (e : Event) : (s.emit e).PipesFree :=
  h.of_eq rfl rfl

theorem setBlockedCode (h : s.PipesFree) (p : PcbPtr) (code : Int) :
    (s.setBlockedCode p code).PipesFree :=
  h.of_eq rfl rfl

theorem setInput (h : s.PipesFree) (t : Nat) (buf : Buffer) (tracker : Nat) :
    ((s.setReadBuffer t buf).setReadTracker t tracker).PipesFree :=
  h.of_eq rfl rfl

theorem setPipe (h : s.PipesFree) {p : PipePtr} {pipe : Pipe}
    (hfree : pipe.beingUsed = false) : (s.setPipe p pipe).PipesFree where
  free := fun q => by
    by_cases hq : q = p
    · simpa [Kernel.setPipe, hq] using hfree
    · simpa [Kernel.setPipe, hq] using h.free q
  contexts := h.contexts

theorem setKernelContext (h : s.PipesFree) (p : PcbPtr) {k : KernelContext}
    (hk : k.waitsToWrite = false) : (s.setKernelContext p k).PipesFree where
  free := h.free
  contexts := fun q => by
    by_cases hq : q = p
    · simpa [Kernel.setKernelContext, setPcb, hq] using hk
    · simpa [Kernel.setKernelContext, setPcb, hq] using h.contexts q

theorem queueAdd (h : s.PipesFree) (q : Option QueueRef) (p : PcbPtr) :
    (s.queueAdd q p).PipesFree := by
  rcases q with _ | q
  · exact h
  · cases q <;> exact h.of_eq rfl rfl

/-- A switch away from anything but `KernelPipeWrite`. -/
theorem swapProcess (h : s.PipesFree) (q : Option QueueRef) {k : KernelContext}
    (hk : k.waitsToWrite = false) : (s.swapProcess q k).PipesFree := by
  unfold Kernel.swapProcess
  simp only
  split
  · exact (h.setKernelContext _ hk).setMode _
  · refine of_eraseMemory ?_ (reloadContext_eraseMemory _ _)
    have hswitched : ∀ {s₁ : Kernel}, s₁.PipesFree →
        ∀ next, ((s₁.setActivePCB next).kcSwitch s.activePCB next k).PipesFree :=
      fun h₁ next => (h₁.setKernelContext s.activePCB hk).of_eq rfl rfl
    refine (hswitched (queueAdd ?_ _ _) _).setMode _
    exact h.of_eq rfl rfl

/-! ## Processes -/

theorem kcCopy (h : s.PipesFree) (child : PcbPtr) {k : KernelContext}
    (hk : k.waitsToWrite = false) : (s.kcCopy child k).PipesFree := by
  rcases kcCopy_eraseMemory (s := s) child k with herase | herase
  · exact (h.setMode _).of_eraseMemory herase
  · exact (h.setKernelContext child hk).of_eraseMemory herase

theorem initProcess (h : s.PipesFree) {active : Option PcbPtr} {pid : Nat}
    {ctx : UserContext} {p : PcbPtr}
    (hmade : s.initProcess active pid ctx = some (p, s')) : s'.PipesFree := by
  have hnew : (s.newProcess active pid).PipesFree := h.of_eq rfl rfl
  exact hnew.of_eraseMemory (initProcess_eraseMemory hmade).2

theorem forkReady (h : s.PipesFree) (child : PcbPtr) :
    (s.forkReady child).PipesFree := by
  have hcopied : ((s.queueAdd (some .readyQ) child).kcCopy child
      .kernelFork).PipesFree := (h.queueAdd _ _).kcCopy _ rfl
  unfold Kernel.forkReady
  simp only
  split
  · exact hcopied
  · exact hcopied.ret _

theorem kernelFork (h : s.PipesFree) (pid : Nat) :
    (s.kernelFork pid).PipesFree := by
  unfold Kernel.kernelFork
  split
  · exact h.setMode _
  · rename_i child forked hmade
    have hcopied := (h.initProcess hmade).of_eraseMemory
      (copyIndices_eraseMemory (s := forked) child s.activePCB)
    simp only
    split
    · exact hcopied.ret _
    · unfold forkCopy
      split
      · exact hcopied.of_eq rfl rfl
      · refine forkReady ?_ _
        exact hcopied.of_eq rfl rfl

theorem kernelExit (h : s.PipesFree) (code : Int) :
    (s.kernelExit code).PipesFree := by
  unfold Kernel.kernelExit
  simp only
  refine swapProcess ?_ _ rfl
  split
  · exact h.of_eq rfl rfl
  · exact h.of_eq rfl rfl

theorem execCase (h : s.PipesFree) (a : ExecArgs) :
    (s.execCase a).PipesFree := by
  unfold Kernel.execCase
  split
  · exact h.setMode _
  · rename_i hexec
    have hloaded := h.of_eraseMemory (kernelExec_eraseMemory hexec)
    split
    · exact hloaded.of_eq rfl rfl
    · refine kernelExit ?_ _
      exact hloaded.of_eq rfl rfl

theorem kernelWait (h : s.PipesFree) (nonNull : Bool) :
    (s.kernelWait nonNull).PipesFree := by
  unfold Kernel.kernelWait
  simp only
  split
  · exact h.of_eq rfl rfl
  · split
    · exact h.of_eq rfl rfl
    · refine swapProcess ?_ _ rfl
      exact h.of_eq rfl rfl

theorem kernelWaitResume (h : s.PipesFree) (setCodePid : Nat) :
    (s.kernelWaitResume setCodePid).PipesFree := by
  unfold Kernel.kernelWaitResume
  simp only
  split
  · exact h.of_eq rfl rfl
  · exact h.of_eq rfl rfl

theorem kernelDelay (h : s.PipesFree) (ticks : Int) :
    (s.kernelDelay ticks).PipesFree := by
  unfold Kernel.kernelDelay
  split
  · exact h.ret _
  · split
    · exact h.ret _
    · refine swapProcess ?_ _ rfl
      exact h.of_eq rfl rfl

theorem kernelBrk (h : s.PipesFree) (addr : Nat) :
    (s.kernelBrk addr).PipesFree := by
  rcases kernelBrk_eraseMemory (s := s) addr with herase | herase
  · exact (h.setMode _).of_eraseMemory herase
  · exact (h.setMode _).of_eraseMemory herase

theorem checkBlocked (h : s.PipesFree) (p : PcbPtr) :
    (s.checkBlocked p).2.PipesFree := by
  unfold Kernel.checkBlocked
  split
  · split
    · exact h.of_eq rfl rfl
    · exact h.of_eq rfl rfl
  · split
    · split
      · exact h.of_eq rfl rfl
      · exact h
    · exact h

theorem blockedScan (h : s.PipesFree) (limit : Nat) :
    (blockedScan limit s).PipesFree := by
  induction limit generalizing s with
  | zero => exact h
  | succ limit ih =>
      unfold Kernel.blockedScan
      split
      · exact ih h
      · rename_i p rest _
        have hpopped : (s.setBlockedQ rest).PipesFree := h.of_eq rfl rfl
        exact ih ((hpopped.checkBlocked p).queueAdd _ p)

/-! ## Terminals -/

theorem ttyReadFinish (h : s.PipesFree) (t len : Nat) :
    (s.ttyReadFinish t len).PipesFree := by
  unfold Kernel.ttyReadFinish
  simp only
  split
  · exact ((h.setInput t _ _).emit _).ret _
  · split
    · exact ((((h.setInput t _ _).emit _).setBlockedCode _ _).queueAdd _ _).ret _
    · exact ((h.setInput t _ _).emit _).ret _

theorem kernelTtyRead (h : s.PipesFree) (ttyId len : Int) :
    (s.kernelTtyRead ttyId len).PipesFree := by
  unfold Kernel.kernelTtyRead
  split
  · exact h.ret _
  · split
    · exact h.ret _
    · split
      · exact h.ret _
      · simp only
        split
        · refine swapProcess ?_ _ rfl
          exact h.of_eq rfl rfl
        · refine ttyReadFinish ?_ _ _
          exact h.of_eq rfl rfl

theorem ttyWriteFinish (h : s.PipesFree) (t written : Nat) :
    (s.ttyWriteFinish t written).PipesFree := by
  unfold Kernel.ttyWriteFinish
  simp only
  split
  · exact h.of_eq rfl rfl
  · exact h.of_eq rfl rfl

theorem ttyWriteLoop (h : s.PipesFree) (t : Nat) (buf : Buffer)
    (len rounds left written : Nat) :
    (ttyWriteLoop t buf len rounds left written s).PipesFree := by
  induction rounds generalizing left written s with
  | zero => exact h.ttyWriteFinish t written
  | succ rounds ih =>
      unfold Kernel.ttyWriteLoop
      split
      · exact h.ttyWriteFinish t written
      · split
        · refine swapProcess ?_ _ rfl
          exact h.of_eq rfl rfl
        · refine ih ?_ _ _
          exact h.of_eq rfl rfl

theorem kernelTtyWrite (h : s.PipesFree) (ttyId : Int) (buf : Buffer)
    (len : Int) : (s.kernelTtyWrite ttyId buf len).PipesFree := by
  unfold Kernel.kernelTtyWrite
  split
  · exact h.ret _
  · split
    · exact h.ret _
    · split
      · exact h.ret _
      · simp only
        split
        · refine swapProcess ?_ _ rfl
          exact h.of_eq rfl rfl
        · refine ttyWriteLoop ?_ _ _ _ _ _ _
          exact h.of_eq rfl rfl

theorem trapTTYReceiveHandler (h : s.PipesFree) (t : Nat) (bytes : List UInt8) :
    (s.trapTTYReceiveHandler t bytes).PipesFree := by
  unfold Kernel.trapTTYReceiveHandler
  simp only
  split
  · exact h.of_eq rfl rfl
  · exact h.of_eq rfl rfl

theorem trapTTYTransmitHandler (h : s.PipesFree) (t : Nat) :
    (s.trapTTYTransmitHandler t).PipesFree := by
  unfold Kernel.trapTTYTransmitHandler
  simp only
  split
  · exact h.of_eq rfl rfl
  · split
    · refine (queueAdd (checkBlocked ?_ _) _ _).setMode _
      exact h.of_eq rfl rfl
    · exact h.of_eq rfl rfl

/-! ## Pipes -/

theorem afterWake (h : s.PipesFree) (p : PipePtr) (st : PipeWake) :
    (s.afterWake p st).PipesFree := by
  refine setPipe ?_ (h.free p)
  exact h.of_eq rfl rfl

theorem pipeReadFinish (h : s.PipesFree) (p : PipePtr) (len : Nat) :
    (s.pipeReadFinish p len).PipesFree := by
  refine ret (afterWake (setPipe ?_ rfl) p _) _
  exact h.of_eq rfl rfl

theorem pipeWriteFinish (h : s.PipesFree) (p : PipePtr) (buf : Buffer)
    (len : Nat) : (s.pipeWriteFinish p buf len).PipesFree := by
  refine ret (afterWake (setPipe ?_ rfl) p _) _
  exact h.of_eq rfl rfl

theorem pipeReadLoop (h : s.PipesFree) (p : PipePtr) (len : Nat) :
    (s.pipeReadLoop p len).PipesFree := by
  unfold Kernel.pipeReadLoop pipeSleep
  split
  · refine swapProcess (setPipe (h.setBlockedCode _ _) ?_) _ rfl
    exact h.free p
  · exact h.pipeReadFinish p len

/-- The `while` of `KernelPipeWrite` is passed at once. -/
theorem pipeWriteLoop_eq (h : s.PipesFree) (p : PipePtr) (buf : Buffer)
    (len : Nat) : s.pipeWriteLoop p buf len = s.pipeWriteFinish p buf len := by
  simp [Kernel.pipeWriteLoop, h.free p]

theorem kernelPipeRead (h : s.PipesFree) (pipeId : Int) (nonNull : Bool)
    (len : Int) : (s.kernelPipeRead pipeId nonNull len).PipesFree := by
  unfold Kernel.kernelPipeRead
  split
  · exact h.ret _
  · split
    · exact h.ret _
    · split
      · exact h.ret _
      · rename_i p _
        rw [h.free p]
        split
        · exact h.setMode _
        · exact h.pipeReadLoop p _

theorem kernelPipeWrite (h : s.PipesFree) (pipeId : Int) (buf : Option Buffer)
    (len : Int) : (s.kernelPipeWrite pipeId buf len).PipesFree := by
  unfold Kernel.kernelPipeWrite
  split
  · exact h.ret _
  · split
    · exact h.ret _
    · split
      · exact h.ret _
      · split
        · exact h.setMode _
        · split
          · exact h.setMode _
          · rw [h.pipeWriteLoop_eq]
            exact h.pipeWriteFinish _ _ _

theorem kernelPipeInit (h : s.PipesFree) (nonNull : Bool) :
    (s.kernelPipeInit nonNull).PipesFree := by
  unfold Kernel.kernelPipeInit
  split
  · exact h.ret _
  · have hadded : (s.setPipe s.npipes ⟨fun _ => 0, 0, s.addPipe.1, false, []⟩).PipesFree :=
      h.setPipe rfl
    exact hadded.of_eq rfl rfl

/-! ## Locks, condition variables and ids -/

theorem kernelAcquire (h : s.PipesFree) (lockId : Int) :
    (s.kernelAcquire lockId).PipesFree := by
  unfold Kernel.kernelAcquire
  simp only
  split
  · exact h.ret _
  · split
    · exact h.ret _
    · split
      · exact h.ret _
      · split
        · refine swapProcess ?_ _ rfl
          exact h.of_eq rfl rfl
        · exact h.of_eq rfl rfl

theorem kernelRelease (h : s.PipesFree) (lockId : Int) :
    (s.kernelRelease lockId).2.PipesFree := by
  unfold Kernel.kernelRelease
  split
  · exact h
  · split
    · exact h
    · simp only
      split
      · exact h.of_eq rfl rfl
      · rename_i next rest _
        have hreleased : ((s.setLockStatus lockId freeLock).setLockAquireQueue
            lockId rest).PipesFree := h.of_eq rfl rfl
        exact hreleased.queueAdd (some .readyQ) next

theorem kernelCvarWait (h : s.PipesFree) (cvarId lockId : Int) :
    (s.kernelCvarWait cvarId lockId).PipesFree := by
  unfold Kernel.kernelCvarWait
  simp only
  split
  · exact h.ret _
  · split
    · exact (h.kernelRelease lockId).ret _
    · exact (h.kernelRelease lockId).swapProcess _ rfl

theorem kernelReclaim (h : s.PipesFree) (id : Int) :
    (s.kernelReclaim id).PipesFree := by
  unfold Kernel.kernelReclaim removePipe
  split
  · exact h.of_eq rfl rfl
  · split
    · exact h.of_eq rfl rfl
    · split
      · exact h.ret _
      · split
        · exact h.setMode _
        · exact h.of_eq rfl rfl

/-! ## Every step -/

theorem trapKernelHandler (h : s.PipesFree) (call : Syscall) :
    (s.trapKernelHandler call).PipesFree := by
  cases call with
  | fork newPid => exact h.kernelFork newPid
  | exec args => exact h.execCase args
  | exit exitCode => exact h.kernelExit exitCode
  | wait nonNull => exact h.kernelWait nonNull
  | getPid => exact h.ret _
  | brk addr => exact h.kernelBrk addr
  | delay ticks => exact h.kernelDelay ticks
  | ttyRead ttyId len => exact h.kernelTtyRead ttyId len
  | ttyWrite ttyId buf len => exact h.kernelTtyWrite ttyId buf len
  | pipeInit nonNull => exact h.kernelPipeInit nonNull
  | pipeRead pipeId nonNull len => exact h.kernelPipeRead pipeId nonNull len
  | pipeWrite pipeId buf len => exact h.kernelPipeWrite pipeId buf len
  | lockInit nonNull =>
      simp only [Kernel.trapKernelHandler, kernelLockInit]
      split <;> split <;> exact h.of_eq rfl rfl
  | acquire lockId => exact h.kernelAcquire lockId
  | release lockId => exact (h.kernelRelease lockId).ret _
  | cvarInit nonNull =>
      simp only [Kernel.trapKernelHandler, kernelCvarInit]
      split
      · exact h.ret _
      · split <;> exact h.of_eq rfl rfl
  | cvarSignal cvarId =>
      simp only [Kernel.trapKernelHandler, kernelCvarSignal]
      split
      · exact h.ret _
      · split <;> exact h.of_eq rfl rfl
  | cvarBroadcast cvarId =>
      simp only [Kernel.trapKernelHandler, kernelCvarBroadcast]
      split <;> exact h.of_eq rfl rfl
  | cvarWait cvarId lockId => exact h.kernelCvarWait cvarId lockId
  | reclaim id => exact h.kernelReclaim id

theorem handle (h : s.PipesFree) (t : Trap) : (s.handle t).PipesFree := by
  cases t with
  | kernel call => exact h.trapKernelHandler call
  | clock =>
      refine swapProcess ?_ _ rfl
      exact h.of_eq rfl rfl
  | illegal =>
      refine swapProcess ?_ _ rfl
      exact h.of_eq rfl rfl
  | math =>
      refine swapProcess ?_ _ rfl
      exact h.of_eq rfl rfl
  | memory addr beyondValid =>
      show (s.trapMemoryHandler addr beyondValid).PipesFree
      rcases trapMemoryHandler_eraseMemory (s := s) addr beyondValid with
        ⟨-, hexit⟩ | herase | herase
      · rw [hexit]
        exact h.kernelExit _
      · exact (h.setMode _).of_eraseMemory herase
      · exact (h.setMode _).of_eraseMemory herase
  | ttyReceive t bytes => exact h.trapTTYReceiveHandler t bytes
  | ttyTransmit t => exact h.trapTTYTransmitHandler t

theorem resume (h : s.PipesFree) : s.resume.PipesFree := by
  have hactive := h.contexts s.activePCB
  unfold Kernel.resume
  split
  · exact h.setMode _
  · exact h.ret _
  · exact (h.blockedScan _).setMode _
  · exact h.setMode _
  · exact h.setMode _
  · exact h.kernelWaitResume _
  · exact h.ret _
  · exact h.ttyReadFinish _ _
  · exact h.ttyWriteLoop _ _ _ _ _ _
  · exact h.pipeReadLoop _ _
  · rename_i hcontext
    simp [hcontext, KernelContext.waitsToWrite] at hactive
  · exact h.of_eq rfl rfl
  · exact h.kernelAcquire _

end PipesFree

end Kernel

theorem Reachable.pipesFree {guard : Kernel → Label → Prop} {s : Kernel}
    (h : Reachable guard s) : s.PipesFree := by
  refine h.invariant (P := fun s => s.PipesFree) ?_ ?_
  · rintro s ⟨b, -, rfl, hmode⟩
    have hstarted : b.started.PipesFree :=
      { free := fun _ => rfl
        contexts := fun p => by
          by_cases hp : p = 1
          · simp [Boot.started, Kernel.setKernelContext, Kernel.setPcb, hp,
              KernelContext.waitsToWrite]
          · simp [Boot.started, Kernel.setKernelContext, Kernel.setPcb,
              Kernel.setReadyQ, Kernel.newProcess, Boot.setUpGlobals,
              KernelContext.waitsToWrite] }
    exact hstarted.of_eraseMemory (Boot.kernelStart_eraseMemory hmode)
  · intro s a s' _ ih _ hstep
    cases hstep with
    | take henabled =>
        cases a with
        | trap ctx t =>
            have hentered : (s.enter ctx).PipesFree := ih.of_eq rfl rfl
            exact hentered.handle t
        | resume => exact ih.resume

/-! ## Who blocks -/

namespace Kernel

variable {s : Kernel}

/-- A `PipeRead` that passes the checks and finds its pipe empty. -/
def ReadsEmptyPipe (s : Kernel) : Label → Prop
  | .trap _ (.kernel (.pipeRead pipeId nonNull len)) =>
      nonNull = true ∧ 0 ≤ len ∧ len ≤ pipeBufferLen ∧
        ∃ p, s.getPipe pipeId = some p ∧ s.pipeChain.head? ≠ some p ∧
          (s.pipes p).plen = 0
  | _ => False

theorem pipeReadLoop_blocks_iff (p : PipePtr) (len : Nat) :
    (s.pipeReadLoop p len).mode = .kernel ↔ (s.pipes p).plen = 0 := by
  unfold pipeReadLoop
  split
  · rename_i hempty
    simp [pipeSleep, swapProcess_mode, hempty]
  · rename_i hbytes
    simp [pipeReadFinish, Kernel.ret, setMode, hbytes]

namespace PipesFree

theorem kernelPipeRead_blocks_iff (h : s.PipesFree) (ctx : UserContext)
    (pipeId : Int) (nonNull : Bool) (len : Int) :
    (s.kernelPipeRead pipeId nonNull len).mode = .kernel ↔
      s.ReadsEmptyPipe (.trap ctx (.kernel (.pipeRead pipeId nonNull len))) := by
  have hret (result : Int) : (s.ret result).mode ≠ .kernel := by
    simp [Kernel.ret, Kernel.setMode]
  unfold Kernel.kernelPipeRead ReadsEmptyPipe
  split
  · rename_i hnull
    simp_all
  · rename_i hnonNull
    split
    · rename_i hlen
      simp only [hret, false_iff]
      rintro ⟨-, hnonneg, hle, -⟩
      omega
    · rename_i hlen
      have hbounds : 0 ≤ len ∧ len ≤ pipeBufferLen := by omega
      split
      · rename_i hnone
        simp [hret, hnone]
      · rename_i p hpipe
        rw [h.free p]
        split
        · rename_i hhead
          simp [toUndefined, Kernel.setMode, hpipe, hhead]
        · rename_i hhead
          simp_all [pipeReadLoop_blocks_iff]

theorem kernelPipeWrite_returns (h : s.PipesFree) (pipeId : Int)
    (buf : Option Buffer) (len : Int) :
    (s.kernelPipeWrite pipeId buf len).mode ≠ .kernel := by
  have hret (result : Int) : (s.ret result).mode ≠ .kernel := by
    simp [Kernel.ret, Kernel.setMode]
  have hundefined : s.toUndefined.mode ≠ .kernel := by
    simp [toUndefined, Kernel.setMode]
  unfold Kernel.kernelPipeWrite
  split
  · exact hret _
  · split
    · exact hret _
    · split
      · exact hret _
      · split
        · exact hundefined
        · split
          · exact hundefined
          · rw [h.pipeWriteLoop_eq]
            simp [Kernel.pipeWriteFinish, Kernel.ret, Kernel.setMode]

end PipesFree

end Kernel

/--
In every run nobody is asleep in `PipeWrite`, and a pipe call blocks exactly when
it is a `PipeRead` of an empty pipe.
-/
theorem pipe_call_blocks_iff {s : Kernel}
    (h : Reachable (fun _ _ => True) s) :
    (∀ p, (s.pcb.kernelContext p).waitsToWrite = false) ∧
      ∀ a : Label, a.callsPipe = true →
        ((s.take a).mode = .kernel ↔ s.ReadsEmptyPipe a) := by
  refine ⟨h.pipesFree.contexts, fun a hcall => ?_⟩
  have hentered (ctx : UserContext) : (s.enter ctx).PipesFree :=
    h.pipesFree.of_eq rfl rfl
  cases a with
  | resume => cases hcall
  | trap ctx t =>
      cases t with
      | kernel call =>
          cases call with
          | pipeRead pipeId nonNull len =>
              exact (hentered ctx).kernelPipeRead_blocks_iff ctx _ _ _
          | pipeWrite pipeId buf len =>
              have hreturns := (hentered ctx).kernelPipeWrite_returns
                pipeId buf len
              exact iff_of_false hreturns id
          | _ => cases hcall
      | _ => cases hcall

/-- On a new pipe a read blocks and a write does not. -/
theorem pipe_call_blocks_iff_one_reader :
    let s := (Boot.small 20).kernelStart.run (tick ++ [call (.pipeInit true)])
    (s.take (call (.pipeRead 5102 true 1))).mode = .kernel ∧
      (s.take (call (.pipeWrite 5102 (some fun _ => 7) 1))).mode ≠ .kernel := by
  intro s
  have hreach : Reachable (fun _ _ => True) s :=
    reachable_small 20 _ (by decide +kernel) (by decide +kernel)
  have hblocks := (pipe_call_blocks_iff hreach).2
  have hempty : s.ReadsEmptyPipe (call (.pipeRead 5102 true 1)) :=
    ⟨rfl, by decide, by decide, 1, by decide +kernel⟩
  exact ⟨(hblocks _ rfl).2 hempty, (hblocks _ rfl).not.2 id⟩

end Yalnix
