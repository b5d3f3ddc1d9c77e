import Yalnix.Memory.FailedFork
import Yalnix.Process.ExecResult
import Yalnix.Sync.Ids

/-!
# Undefined behaviour

Which steps of the model go past an access that C leaves undefined or that traps
in the kernel.  Every other step returns to user mode or switches to a process.
-/

namespace Yalnix

namespace Kernel

variable {s : Kernel}

/-! ## Calls that always return or switch -/

@[simp] theorem ret_live (result : Int) : (s.ret result).Live := .inl rfl

@[simp] theorem toUser_live : s.toUser.Live := .inl rfl

@[simp] theorem swapProcess_live (q : Option QueueRef) (k : KernelContext) :
    (s.swapProcess q k).Live := .inr (swapProcess_mode q k)

@[simp] theorem toUndefined_not_live : ¬ s.toUndefined.Live := by
  simp [Live, toUndefined, setMode]

@[simp] theorem kernelExit_live (code : Int) : (s.kernelExit code).Live :=
  .inr (kernelExit_mode code)

theorem kernelWait_live (nonNull : Bool) : (s.kernelWait nonNull).Live := by
  simp only [kernelWait]
  split
  · simp
  · split <;> simp

theorem kernelWaitResume_live (setCodePid : Nat) :
    (s.kernelWaitResume setCodePid).Live := by
  simp only [kernelWaitResume]
  split <;> simp

theorem kernelDelay_live (clockTicks : Int) :
    (s.kernelDelay clockTicks).Live := by
  simp only [kernelDelay]
  split
  · simp
  · split <;> simp

theorem ttyReadFinish_live (t len : Nat) : (s.ttyReadFinish t len).Live := by
  simp only [ttyReadFinish]
  split
  · simp
  · split <;> simp

theorem kernelTtyRead_live (ttyId len : Int) :
    (s.kernelTtyRead ttyId len).Live := by
  simp only [kernelTtyRead]
  split
  · simp
  · split
    · simp
    · split
      · simp
      · split
        · simp
        · exact ttyReadFinish_live _ _

theorem ttyWriteFinish_live (t written : Nat) :
    (s.ttyWriteFinish t written).Live := by
  simp only [ttyWriteFinish]
  split <;> simp

theorem ttyWriteLoop_live (t : Nat) (buf : Buffer)
    (len rounds left written : Nat) :
    (ttyWriteLoop t buf len rounds left written s).Live := by
  induction rounds generalizing s left written with
  | zero => exact ttyWriteFinish_live _ _
  | succ rounds ih =>
      simp only [ttyWriteLoop]
      split
      · exact ttyWriteFinish_live _ _
      · split
        · simp
        · exact ih _ _

theorem kernelTtyWrite_live (ttyId : Int) (buf : Buffer) (len : Int) :
    (s.kernelTtyWrite ttyId buf len).Live := by
  simp only [kernelTtyWrite]
  split
  · simp
  · split
    · simp
    · split
      · simp
      · split
        · simp
        · exact ttyWriteLoop_live _ _ _ _ _ _

theorem trapTTYReceiveHandler_live (t : Nat) (bytes : List UInt8) :
    (s.trapTTYReceiveHandler t bytes).Live := by
  simp only [trapTTYReceiveHandler]
  split <;> simp

theorem trapTTYTransmitHandler_live (t : Nat) :
    (s.trapTTYTransmitHandler t).Live := by
  simp only [trapTTYTransmitHandler]
  split
  · simp
  · split <;> simp

theorem kernelPipeInit_live (nonNull : Bool) :
    (s.kernelPipeInit nonNull).Live := by
  simp only [kernelPipeInit]
  split <;> simp

theorem pipeReadLoop_live (p : PipePtr) (len : Nat) :
    (s.pipeReadLoop p len).Live := by
  simp only [pipeReadLoop, pipeSleep, pipeReadFinish]
  split <;> simp

theorem pipeWriteLoop_live (p : PipePtr) (buf : Buffer) (len : Nat) :
    (s.pipeWriteLoop p buf len).Live := by
  simp only [pipeWriteLoop, pipeSleep, pipeWriteFinish]
  split <;> simp

theorem kernelAcquire_live (lockId : Int) : (s.kernelAcquire lockId).Live := by
  simp only [kernelAcquire]
  split
  · simp
  · split
    · simp
    · split
      · simp
      · split <;> simp

theorem kernelCvarInit_live (nonNull : Bool) :
    (s.kernelCvarInit nonNull).Live := by
  simp only [kernelCvarInit]
  split
  · simp
  · split <;> simp

theorem kernelCvarSignal_live (cvarId : Int) :
    (s.kernelCvarSignal cvarId).Live := by
  simp only [kernelCvarSignal]
  split
  · simp
  · split <;> simp

theorem kernelCvarBroadcast_live (cvarId : Int) :
    (s.kernelCvarBroadcast cvarId).Live := by
  simp only [kernelCvarBroadcast]
  split <;> simp

theorem kernelCvarWait_live (cvarId lockId : Int) :
    (s.kernelCvarWait cvarId lockId).Live := by
  simp only [kernelCvarWait]
  split
  · simp
  · split <;> simp

/-- Whoever is suspended in a call comes out of it or sleeps again. -/
theorem resume_live : s.resume.Live := by
  unfold resume
  cases s.pcb.kernelContext s.activePCB with
  | kernelStart => simp
  | kernelFork => simp
  | trapClockHandler => simp
  | kernelExit => simp
  | trapFault => simp
  | kernelWait => exact kernelWaitResume_live _
  | kernelDelay => simp
  | kernelTtyRead => exact ttyReadFinish_live _ _
  | kernelTtyWrite => exact ttyWriteLoop_live _ _ _ _ _ _
  | kernelPipeRead => exact pipeReadLoop_live _ _
  | kernelPipeWrite => exact pipeWriteLoop_live _ _ _
  | kernelAcquire => simp [kernelAcquireResume]
  | kernelCvarWait => exact kernelAcquire_live _

/-! ## Fork -/

/-- The pool has no frames for another kernel stack. -/
def StackRunsOut (s : Kernel) : Prop :=
  s.pfnList.length < kernelStackSize ∨ 0 ∈ s.pfnList.take kernelStackSize

instance (s : Kernel) : Decidable s.StackRunsOut :=
  inferInstanceAs (Decidable (_ ∨ _))

theorem initProcess_isSome_iff (active : Option PcbPtr) {pid : Nat}
    (uctxt : UserContext) (hpid : pid ≠ 0) :
    (s.initProcess active pid uctxt).isSome = true ↔ ¬ s.StackRunsOut := by
  have hstack := @allocKernelStack_isSome_iff (List.range kernelStackSize)
    (s.pcb.kernelStackPt s.npcb) s.pfnList
  rw [List.length_range] at hstack
  rw [StackRunsOut, not_or, Nat.not_lt, ← hstack]
  unfold initProcess
  simp only [if_pos hpid]
  split <;> simp_all

/-- The page that `KernelFork` has copied through is free for `KCCopy`. -/
theorem reservedKernelIndex_upd {kPt : Nat → Pte} {reserved : Nat}
    (h : reservedKernelIndex kPt = some reserved) :
    (reservedKernelIndex (upd kPt reserved invalidPte)).isSome = true := by
  have hmem := List.mem_of_find?_eq_some h
  exact List.find?_isSome.2 ⟨reserved, hmem, by simp [invalidPte]⟩

theorem kcCopy_mode {child : PcbPtr} {k : KernelContext}
    (h : (reservedKernelIndex s.kPt).isSome = true) :
    (s.kcCopy child k).mode = s.mode := by
  obtain ⟨reserved, hreserved⟩ := Option.isSome_iff_exists.1 h
  unfold kcCopy
  rw [hreserved]
  rfl

theorem kernelFork_live_iff {pid : Nat} (huser : s.mode = .user)
    (hpid : pid ≠ 0) : (s.kernelFork pid).Live ↔ ¬ s.StackRunsOut := by
  rw [← initProcess_isSome_iff (some s.activePCB) (s.uctxt s.activePCB) hpid]
  unfold kernelFork
  cases hinit : s.initProcess (some s.activePCB) pid (s.uctxt s.activePCB) with
  | none => simp
  | some made =>
      obtain ⟨child, forked⟩ := made
      have hmode : forked.mode = .user := by
        unfold initProcess at hinit
        simp only at hinit
        split at hinit
        · cases hinit
        · cases hinit
          exact huser
      simp only [Option.isSome_some, iff_true]
      cases hreserved : reservedKernelIndex
          (forked.copyIndices child s.activePCB).kPt with
      | none => simp
      | some reserved =>
          simp only [forkCopy]
          split
          · simp
          · simp only [forkReady]
            have hkept : (reservedKernelIndex (upd
                (forked.copyIndices child s.activePCB).kPt reserved
                  invalidPte)).isSome = true := reservedKernelIndex_upd hreserved
            split
            · rename_i hundefined
              rw [kcCopy_mode hkept] at hundefined
              exact absurd (hmode.symm.trans hundefined) (by decide)
            · simp

/-! ## Exec, Brk and memory traps -/

/-- A subscript of the load lies outside the page table, or the image has its
frames and its segments and the kernel cannot write the rest of it. -/
def ExecFaults (s : Kernel) (args : ExecArgs) : Prop :=
  args.nonNull = true ∧ ∃ li ∈ args.file.accepted args.args,
    (∃ i ∈ mappedSubscripts (layout li args.args) (s.freedPool s.activePCB),
        ¬ (0 ≤ i ∧ i < userPtSize)) ∨
      (layout li args.args).FramesIn (s.freedPool s.activePCB) ∧
        (args.file.textReads = true ∧ args.file.dataReads = true) ∧
          ¬ (layout li args.args).WritesInside

theorem execCase_live_iff (args : ExecArgs) :
    (s.execCase args).Live ↔ ¬ s.ExecFaults args := by
  have hnone : (s.execCase args).Live ↔ s.kernelExec args ≠ none := by
    simp only [execCase]
    cases s.kernelExec args with
    | none => simp
    | some result =>
        simp only [ne_eq, reduceCtorEq, not_false_eq_true, iff_true]
        split <;> simp
  have hpool : (s.setUserContext s.activePCB ⟨0, 0⟩).freedPool s.activePCB =
      s.freedPool s.activePCB := rfl
  rw [hnone, ExecFaults, ne_eq, not_iff_not, kernelExec]
  cases args.nonNull with
  | false => simp
  | true =>
      simp only [Bool.not_true, Bool.false_eq_true, if_false, true_and]
      have hload : (s.setUserContext s.activePCB ⟨0, 0⟩).loadProgram
          args.file args.args s.activePCB = none ↔
            ∃ li ∈ args.file.accepted args.args,
              (∃ i ∈ mappedSubscripts (layout li args.args)
                  (s.freedPool s.activePCB), ¬ (0 ≤ i ∧ i < userPtSize)) ∨
                (layout li args.args).FramesIn (s.freedPool s.activePCB) ∧
                  (args.file.textReads = true ∧ args.file.dataReads = true) ∧
                    ¬ (layout li args.args).WritesInside := by
        rw [loadProgram_eq, ← hpool]
        cases args.file.accepted args.args with
        | none => simp
        | some li =>
            simp only [loadImage_faults_iff, Option.mem_some_iff,
              exists_eq_left']
      rw [← hload]
      split
      · rename_i hnone
        exact iff_of_true rfl hnone
      · rename_i hsome
        refine iff_of_false ?_ fun hnone => ?_
        · split <;> simp
        · cases hsome.symm.trans hnone

/-- The loops of `KernelBrk` would leave the page table. -/
def BrkLeavesTable (s : Kernel) (addr : Nat) : Prop :=
  let x := s.space s.activePCB
  addr ≠ 0 ∧ x.dataIndex < brkTarget addr ∧ brkTarget addr < x.stackIndex ∧
    (x.heapIndex < brkTarget addr ∧
        (x.heapIndex < 0 ∨ (userPtSize : Int) < brkTarget addr) ∨
      brkTarget addr < x.heapIndex ∧
        (brkTarget addr < 0 ∨ (userPtSize : Int) < x.heapIndex))

theorem kernelBrk_live_iff (addr : Nat) :
    (s.kernelBrk addr).Live ↔ ¬ s.BrkLeavesTable addr := by
  simp only [BrkLeavesTable, space, memory, Memory.space]
  simp only [kernelBrk]
  split
  · simp [*]
  · split
    · simp only [ret_live, true_iff]
      omega
    · split
      · split
        · simp only [toUndefined_not_live, false_iff, not_not]
          omega
        · split
          · simp only [ret_live, true_iff]
            omega
          · split
            · simp only [ret_live, true_iff]
              omega
            · simp only [ret_live, true_iff]
              omega
      · split
        · simp only [toUndefined_not_live, false_iff, not_not]
          omega
        · split
          · simp only [ret_live, true_iff]
            omega
          · simp only [ret_live, true_iff]
            omega

/-- The loop of `TrapMemoryHandler` would leave the page table. -/
def FaultLeavesTable (s : Kernel) (addr : Nat) (beyondValid : Bool) : Prop :=
  0 ≤ faultTarget addr ∧ s.faultValid (faultTarget addr) beyondValid = false ∧
    (userPtSize : Int) < (s.space s.activePCB).stackIndex ∧
      faultTarget addr < (s.space s.activePCB).stackIndex

theorem trapMemoryHandler_live_iff (addr : Nat) (beyondValid : Bool) :
    (s.trapMemoryHandler addr beyondValid).Live ↔
      ¬ s.FaultLeavesTable addr beyondValid := by
  simp only [FaultLeavesTable, space, memory, Memory.space]
  simp only [trapMemoryHandler]
  split
  · simp only [kernelExit_live, true_iff]
    rename_i hfatal
    rintro ⟨hpos, hvalid, -⟩
    rcases hfatal with hneg | htrue
    · omega
    · simp [hvalid] at htrue
  · rename_i hfatal
    rw [not_or, Int.not_lt, Bool.not_eq_true] at hfatal
    split
    · simp only [toUndefined_not_live, false_iff, not_not]
      exact ⟨hfatal.1, hfatal.2, ‹_›⟩
    · simp only [toUser_live, true_iff]
      rintro ⟨-, -, houtside⟩
      contradiction

/-! ## Ids and pointers -/

theorem kernelLockInit_live_iff (nonNull : Bool) :
    (s.kernelLockInit nonNull).Live ↔
      ¬ (s.lockList = [] ∧ nonNull = false) := by
  simp only [kernelLockInit]
  split
  · cases nonNull <;> simp [*]
  · simp only [*, reduceCtorEq, false_and, not_false_eq_true, iff_true]
    split <;> simp

end Kernel

namespace Numbered

open Kernel

variable {s : Kernel} {i : IssuedIds} {id : Int}

/-- The head pipe is found under its own id only. -/
theorem getPipe_head_iff (h : Numbered s.ids i) {p : PipePtr}
    (hp : s.getPipe id = some p) :
    s.pipeChain.head? = some p ↔ id = headPipeId := by
  obtain ⟨head, hhead, hfound⟩ := h.getPipe_head
  constructor
  · intro hsame
    obtain ⟨first, rest, hchain, hid, -⟩ := h.chain_head
    have hchain : s.pipeChain = first :: rest := hchain
    have hid : (s.pipes first).id = headPipeId := hid
    have hmatch := List.find?_some hp
    rw [hchain, List.head?_cons, Option.some.injEq] at hsame
    rw [← hsame, hid] at hmatch
    exact (of_decide_eq_true hmatch).symm
  · rintro rfl
    rw [hhead, ← hp, hfound]

theorem kernelPipeRead_live_iff (h : Numbered s.ids i) (nonNull : Bool)
    (len : Int) : (s.kernelPipeRead id nonNull len).Live ↔
      ¬ (nonNull = true ∧ 0 ≤ len ∧ len ≤ pipeBufferLen ∧
        id = headPipeId) := by
  simp only [kernelPipeRead]
  split
  · simp_all
  · split
    · simp only [ret_live, true_iff]
      omega
    · rename_i hlen
      have hbounds : 0 ≤ len ∧ len ≤ pipeBufferLen := by omega
      split
      · rename_i hnone
        simp only [ret_live, true_iff]
        rintro ⟨-, -, -, rfl⟩
        obtain ⟨head, -, hfound⟩ := h.getPipe_head
        simp [hfound] at hnone
      · rename_i p hp
        simp only [h.getPipe_head_iff hp]
        split
        · simp_all
        · simp only [*, and_false, not_false_eq_true, iff_true]
          split
          · simp [pipeSleep]
          · exact pipeReadLoop_live _ _

theorem kernelPipeWrite_live_iff (h : Numbered s.ids i) (buf : Option Buffer)
    (len : Int) : (s.kernelPipeWrite id buf len).Live ↔
      ¬ (buf.isSome = true ∧ 0 ≤ len ∧ len ≤ pipeBufferLen ∧ 0 < id ∧
        (id = headPipeId ∨ s.getPipe id = none)) := by
  simp only [kernelPipeWrite]
  split
  · simp only [ret_live, true_iff]
    omega
  · split
    · simp only [ret_live, true_iff]
      omega
    · rename_i hid hlen
      have hbounds : 0 ≤ len ∧ len ≤ pipeBufferLen ∧ 0 < id := by omega
      cases buf with
      | none => simp
      | some buf =>
          cases hp : s.getPipe id with
          | none => simp [hbounds]
          | some p =>
              simp only [h.getPipe_head_iff hp]
              split
              · rename_i hhead
                subst hhead
                simp [hbounds]
              · simp [*, pipeWriteLoop_live]

theorem kernelReclaim_live_iff (h : Numbered s.ids i) :
    (s.kernelReclaim id).Live ↔ id ≠ headPipeId := by
  have hcvars : (0 : Int) ≤ maxCvars := by decide
  have hhead : headPipeId = maxLocks + maxCvars + 1 := rfl
  simp only [kernelReclaim]
  split
  · simp only [ret_live, true_iff]
    omega
  · split
    · simp only [ret_live, true_iff]
      omega
    · simp only [removePipe]
      cases hp : s.getPipe id with
      | none =>
          simp only [ret_live, true_iff]
          rintro rfl
          obtain ⟨head, -, hfound⟩ := h.getPipe_head
          simp [hfound] at hp
      | some p =>
          simp only [h.getPipe_head_iff hp]
          split <;> simp [*]

end Numbered

/-! ## Every step -/

namespace Kernel

variable {s : Kernel} {a : Label}

/-- A call that the kernel does not check: a fork without frames for the kernel
stack, `LockInit` with NULL when no lock is left, and the ids that `PipeRead`,
`PipeWrite` and `Reclaim` follow to the head pipe or to no pipe. -/
def Misused (s : Kernel) : Label → Prop
  | .trap _ (.kernel (.fork _)) => s.StackRunsOut
  | .trap _ (.kernel (.lockInit nonNull)) => s.lockList = [] ∧ nonNull = false
  | .trap _ (.kernel (.pipeRead pipeId nonNull len)) =>
      nonNull = true ∧ 0 ≤ len ∧ len ≤ pipeBufferLen ∧ pipeId = headPipeId
  | .trap _ (.kernel (.pipeWrite pipeId buf len)) =>
      buf.isSome = true ∧ 0 ≤ len ∧ len ≤ pipeBufferLen ∧ 0 < pipeId ∧
        (pipeId = headPipeId ∨ s.getPipe pipeId = none)
  | .trap _ (.kernel (.reclaim id)) => id = headPipeId
  | _ => False

/-- A subscript leaves the page table of the active process, or a new image is
written where it cannot be. -/
def LeavesTable (s : Kernel) : Label → Prop
  | .trap _ (.kernel (.exec args)) => s.ExecFaults args
  | .trap _ (.kernel (.brk addr)) => s.BrkLeavesTable addr
  | .trap _ (.memory addr beyondValid) => s.FaultLeavesTable addr beyondValid
  | _ => False

instance (s : Kernel) (a : Label) : Decidable (s.Misused a) := by
  unfold Misused
  split <;> infer_instance

theorem trapKernelHandler_live_iff {i : IssuedIds} (h : Numbered s.ids i)
    (huser : s.mode = .user) {ctx : UserContext} {call : Syscall}
    (hpid : ∀ pid ∈ call.newPid, pid ≠ 0) :
    (s.trapKernelHandler call).Live ↔ ¬ s.Misused (.trap ctx (.kernel call)) ∧
      ¬ s.LeavesTable (.trap ctx (.kernel call)) := by
  have hnever {r : Kernel} (hlive : r.Live) : r.Live ↔ ¬ False ∧ ¬ False := by
    simp [hlive]
  have hmisused {r : Kernel} {P : Prop} (hiff : r.Live ↔ ¬ P) :
      r.Live ↔ ¬ P ∧ ¬ False := by simpa using hiff
  have hleaves {r : Kernel} {P : Prop} (hiff : r.Live ↔ ¬ P) :
      r.Live ↔ ¬ False ∧ ¬ P := by simpa using hiff
  cases call with
  | fork pid => exact hmisused (kernelFork_live_iff huser (hpid pid rfl))
  | exec args => exact hleaves (execCase_live_iff args)
  | exit code => exact hnever (kernelExit_live code)
  | wait nonNull => exact hnever (kernelWait_live nonNull)
  | getPid => exact hnever (ret_live _)
  | brk addr => exact hleaves (kernelBrk_live_iff addr)
  | delay ticks => exact hnever (kernelDelay_live ticks)
  | ttyRead ttyId len => exact hnever (kernelTtyRead_live ttyId len)
  | ttyWrite ttyId buf len => exact hnever (kernelTtyWrite_live ttyId buf len)
  | pipeInit nonNull => exact hnever (kernelPipeInit_live nonNull)
  | pipeRead pipeId nonNull len =>
      exact hmisused (h.kernelPipeRead_live_iff nonNull len)
  | pipeWrite pipeId buf len =>
      exact hmisused (h.kernelPipeWrite_live_iff buf len)
  | lockInit nonNull => exact hmisused (kernelLockInit_live_iff nonNull)
  | acquire lockId => exact hnever (kernelAcquire_live lockId)
  | release lockId => exact hnever (ret_live _)
  | cvarInit nonNull => exact hnever (kernelCvarInit_live nonNull)
  | cvarSignal cvarId => exact hnever (kernelCvarSignal_live cvarId)
  | cvarBroadcast cvarId => exact hnever (kernelCvarBroadcast_live cvarId)
  | cvarWait cvarId lockId => exact hnever (kernelCvarWait_live cvarId lockId)
  | reclaim id => exact hmisused h.kernelReclaim_live_iff

end Kernel

theorem Reachable.live_iff {guard : Kernel → Label → Prop} {s : Kernel}
    (h : Reachable guard s) {a : Label} (henabled : a.Enabled s) :
    (s.take a).Live ↔ ¬ s.Misused a ∧ ¬ s.LeavesTable a := by
  obtain ⟨i, htracked⟩ := h.idsTracked
  have hnumbered : Numbered s.ids i := htracked.numbered
  cases a with
  | resume =>
      simp [Kernel.take, Kernel.resume_live, Kernel.Misused, Kernel.LeavesTable]
  | trap ctx t =>
      obtain ⟨huser, hpossible⟩ := henabled
      have hnever (hlive : ((s.enter ctx).handle t).Live) :
          ((s.enter ctx).handle t).Live ↔ ¬ False ∧ ¬ False := by
        simp [hlive]
      cases t with
      | kernel call =>
          refine Kernel.trapKernelHandler_live_iff (s := s.enter ctx) (i := i)
            hnumbered huser fun pid hpid hzero => ?_
          exact hpossible.2 pid hpid
            (hzero ▸ (Reachable.quiescent h (.inl huser)).zero_used)
      | clock => exact hnever (Kernel.swapProcess_live _ _)
      | illegal => exact hnever (Kernel.swapProcess_live _ _)
      | math => exact hnever (Kernel.swapProcess_live _ _)
      | memory addr beyondValid =>
          have hiff := Kernel.trapMemoryHandler_live_iff (s := s.enter ctx) addr
            beyondValid
          refine hiff.trans ⟨fun hinside => ⟨not_false, hinside⟩, And.right⟩
      | ttyReceive t bytes =>
          exact hnever (Kernel.trapTTYReceiveHandler_live t bytes)
      | ttyTransmit t => exact hnever (Kernel.trapTTYTransmitHandler_live t)

end Yalnix
