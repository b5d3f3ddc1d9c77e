import Yalnix.Foundation.QueueScan
import Yalnix.Kernel.LoadProgram

/-!
# Process and memory system calls

`Fork`, `Exec`, `Exit`, `Wait`, `Brk` and `Delay` of `syscalls.c`.
-/

namespace Yalnix

/-! ## Exit -/

/-- What the three loops of `KernelExit` write. -/
structure ExitScan where
  ppid : PcbPtr → Nat
  blockedCode : PcbPtr → Int
  numChildren : PcbPtr → Int
  readyQ : List PcbPtr
  swapQ : Option QueueRef
  reporter : PcbPtr → Option PcbPtr

/-- One round of the loop over `ready_q`. -/
def exitReadyBody (pid : PcbPtr → Nat) (active r : PcbPtr) (st : ExitScan) :
    Bool × ExitScan :=
  if st.ppid r = pid active then (true, { st with ppid := upd st.ppid r 0 })
  else if pid r = st.ppid active then
    (true, { st with swapQ := some .defunctQ })
  else (true, st)

/-- One round of the loop over `blocked_q`: a parent asleep in `Wait` is moved
to the ready queue with the exit code in its `blocked_code`. -/
def exitBlockedBody (pid : PcbPtr → Nat) (active : PcbPtr) (exitCode : Int)
    (b : PcbPtr) (st : ExitScan) : Bool × ExitScan :=
  if pid b = st.ppid active ∧ st.blockedCode b = Blocked.wait then
    (false,
      { st with
        blockedCode := upd st.blockedCode b exitCode
        numChildren := upd st.numChildren b (st.numChildren b - 1)
        readyQ := st.readyQ ++ [b]
        reporter := upd st.reporter b (some active) })
  else if pid b = st.ppid active then
    (true, { st with swapQ := some .defunctQ })
  else if st.ppid b = pid active then
    (true, { st with ppid := upd st.ppid b 0 })
  else (true, st)

/-- One round of the loop over `defunct_q`: children are taken out. -/
def exitDefunctBody (pid : PcbPtr → Nat) (active d : PcbPtr)
    (st : ExitScan) : Bool × ExitScan :=
  (decide (st.ppid d ≠ pid active), st)

/-! ## Wait -/

/-- The loop of `KernelWait`: the first child it meets is taken out, the
entries before it have been moved to the end. -/
def reapLoop (isChild : PcbPtr → Bool) :
    Nat → List PcbPtr → Option PcbPtr × List PcbPtr
  | 0, queue => (none, queue)
  | _ + 1, [] => (none, [])
  | limit + 1, d :: queue =>
      if isChild d then (some d, queue)
      else reapLoop isChild limit (queue ++ [d])

namespace Kernel

/-- The locals and globals that the loops of `KernelExit` start from. -/
def exitScan (s : Kernel) : ExitScan :=
  { ppid := s.pcb.ppid
    blockedCode := s.pcb.blockedCode
    numChildren := s.pcb.numChildren
    readyQ := s.readyQ
    swapQ := none
    reporter := s.history.reporter }

/-- The three loops of `KernelExit`, with the queue the process is to go to. -/
def exitLoops (s : Kernel) : Option QueueRef × Kernel :=
  let active := s.activePCB
  let pid := s.pcb.pid
  let ready := QueueScan.scan (exitReadyBody pid active)
    s.readyQ.length s.readyQ s.exitScan
  let st := { ready.2 with readyQ := ready.1 }
  let blocked := QueueScan.scan
    (exitBlockedBody pid active (s.pcb.exitCode active))
    s.blockedQ.length s.blockedQ st
  let st := blocked.2
  let defunct := QueueScan.scan (exitDefunctBody pid active)
    s.defunctQ.length s.defunctQ st
  let st := defunct.2
  let pcb : PcbTable :=
    { s.pcb with
      ppid := st.ppid
      blockedCode := st.blockedCode
      numChildren := st.numChildren }
  (st.swapQ,
    { s with
      pcb := pcb
      readyQ := st.readyQ
      blockedQ := blocked.1
      defunctQ := defunct.1
      history := { s.history with reporter := st.reporter } })

/--
`KernelExit`.  `delete_process` and `free_addr_space` return the same frames;
the freed PCB is still read and written by the `SwapProcess` that follows.
-/
def kernelExit (s : Kernel) (exitCode : Int) : Kernel :=
  let active := s.activePCB
  let s := (s.setExitCode active exitCode).emit (.exit active exitCode)
  let loops :=
    if s.pcb.ppid active ≠ 0 ∨ 0 < s.pcb.numChildren active then s.exitLoops
    else (none, s)
  let s := loops.2
  let s := s.setPfnList (freeAddrSpace (s.pcb.userPageTable active)
    (s.pcb.kernelStackPt active) s.pfnList)
  (s.setTerminated active).swapProcess loops.1 .kernelExit

def kernelWait (s : Kernel) (statusPtrNonNull : Bool) : Kernel :=
  let active := s.activePCB
  if !statusPtrNonNull ∨ s.pcb.numChildren active = 0 then
    (s.emit (.waitReturn active none none Rc.error)).ret Rc.error
  else
    let setCodePid := s.pcb.pid active
    let isChild := fun d => decide (s.pcb.ppid d = s.pcb.pid active)
    match reapLoop isChild s.defunctQ.length s.defunctQ with
    | (some d, queue) =>
        let code := s.pcb.exitCode d
        let numChildren := s.pcb.numChildren active
        let s := s.setDefunctQ queue
        let s := s.setNumChildren active (numChildren - 1)
        (s.emit (.waitReturn active (some d) (some code) 0)).ret 0
    | (none, queue) =>
        let s := s.setDefunctQ queue
        let s := s.setBlockedCode active Blocked.wait
        s.swapProcess (some .blockedQ) (.kernelWait setCodePid)

/-- `KernelWait` from the return of its `SwapProcess` on. -/
def kernelWaitResume (s : Kernel) (setCodePid : Nat) : Kernel :=
  let active := s.activePCB
  if s.pcb.pid active = setCodePid then
    let s := s.emit (.waitReturn active (s.history.reporter active)
      (some (s.pcb.blockedCode active)) 0)
    ((s.setBlockedCode active Blocked.notBlocked).setReporter active none).ret 0
  else (s.emit (.waitReturn active none none 0)).ret 0

def kernelDelay (s : Kernel) (clockTicks : Int) : Kernel :=
  if clockTicks = 0 then s.ret 0
  else if clockTicks < 0 then s.ret Rc.error
  else
    let active := s.activePCB
    let s := s.setClockTicks active clockTicks
    let s := s.setBlockedCode active Blocked.delay
    s.swapProcess (some .blockedQ) .kernelDelay

/-! ## Fork -/

/-- The child's segment indices are copied from the parent. -/
def copyIndices (s : Kernel) (child parent : PcbPtr) : Kernel :=
  let s := s.setHeapIndex child (s.pcb.userHeapPtIndex parent)
  let s := s.setStackIndex child (s.pcb.userStackPtIndex parent)
  let s := s.setDataIndex child (s.pcb.userDataPtIndex parent)
  s.setTextIndex child (s.pcb.userTextPtIndex parent)

/-- The end of `KernelFork`: the child becomes ready and gets its context. -/
def forkReady (s : Kernel) (child : PcbPtr) : Kernel :=
  let s := (s.queueAdd (some .readyQ) child).kcCopy child .kernelFork
  if s.mode = .undefined then s else s.ret (s.pcb.pid child)

/-- `KernelFork` from `CopyUPT` on, through the reserved Region 0 page. -/
def forkCopy (s : Kernel) (child parent : PcbPtr) (reserved : Nat) : Kernel :=
  match copyUPT (s.pcb.userPageTable parent) (List.range userPtSize)
      (s.pcb.userPageTable child) s.pfnList (s.kPt reserved).pfn with
  | (false, table, pool, mapped) =>
      -- the reserved page stays mapped, and the child is forgotten
      let s := (s.setUserPageTable child table).setPfnList pool
      (s.setKPt (upd s.kPt reserved ⟨true, Prot.noXWR, mapped⟩)).ret Rc.error
  | (true, table, pool, _) =>
      let s := (s.setUserPageTable child table).setPfnList pool
      (s.setKPt (upd s.kPt reserved invalidPte)).forkReady child

/--
`KernelFork`, with the pid that `helper_new_pid` hands out.  When
`init_process` fails its NULL result is written through before it is tested.
-/
def kernelFork (s : Kernel) (pid : Nat) : Kernel :=
  match s.initProcess (some s.activePCB) pid (s.uctxt s.activePCB) with
  | none => s.toUndefined
  | some (child, forked) =>
      let forked := forked.copyIndices child s.activePCB
      match reservedKernelIndex forked.kPt with
      | none => forked.ret Rc.error
      | some reserved => forked.forkCopy child s.activePCB reserved

/-! ## Exec and Brk -/

/-- What an `Exec` call finds: non-NULL pointers, a file, its arguments. -/
structure ExecArgs where
  nonNull : Bool
  file : Executable
  args : List (List UInt8)

/-- `KernelExec`; a result other than `ERROR`, `KILL` included, counts as `0`. -/
def kernelExec (s : Kernel) (a : ExecArgs) : Option (Int × Kernel) :=
  if !a.nonNull then some (Rc.error, s)
  else
    let s := s.setUserContext s.activePCB ⟨0, 0⟩
    match s.loadProgram a.file a.args s.activePCB with
    | none => none
    | some (code, s) =>
        if code = Rc.error then some (Rc.error, s) else some (0, s)

/-- The `YALNIX_EXEC` case of `TrapKernelHandler`. -/
def execCase (s : Kernel) (a : ExecArgs) : Kernel :=
  match s.kernelExec a with
  | none => s.toUndefined
  | some (code, s) =>
      if code ≠ Rc.error then
        (s.setUctxt s.activePCB (s.pcb.userContext s.activePCB)).ret code
      else (s.setReg0 s.activePCB code).kernelExit Rc.error

/-- The page index of a break address. -/
def brkTarget (addr : Nat) : Int :=
  upToPage (toInt32 addr) / pageSize - vmem1BasePage

/-- `KernelBrk` on a 32-bit address. -/
def kernelBrk (s : Kernel) (addr : Nat) : Kernel :=
  let active := s.activePCB
  let heapIndex := s.pcb.userHeapPtIndex active
  let stackIndex := s.pcb.userStackPtIndex active
  let dataIndex := s.pcb.userDataPtIndex active
  let target := brkTarget addr
  let table := s.pcb.userPageTable active
  if addr = 0 then s.ret Rc.error
  else if stackIndex ≤ target ∨ target ≤ dataIndex then s.ret Rc.error
  else if heapIndex < target then
    if heapIndex < 0 ∨ (userPtSize : Int) < target then s.toUndefined
    else
      let first := heapIndex.toNat
      let count := (target - heapIndex).toNat
      if (List.range count).any fun i => (table (first + i)).valid then
        s.ret Rc.error
      else
        let grown := growPages first count table s.pfnList
        let s := (s.setUserPageTable active grown.2.1).setPfnList grown.2.2
        if grown.1 then (s.setHeapIndex active target).ret 0
        else s.ret Rc.error
  else if target < heapIndex ∧
      (target < 0 ∨ (userPtSize : Int) < heapIndex) then s.toUndefined
  else
    let first := target.toNat
    let count := (heapIndex - target).toNat
    if (List.range count).any fun i => !(table (first + i)).valid then
      s.ret Rc.error
    else
      let shrunk := shrinkPages first count table s.pfnList
      let s := (s.setUserPageTable active shrunk.1).setPfnList shrunk.2
      (s.setHeapIndex active target).ret 0

end Kernel

end Yalnix
