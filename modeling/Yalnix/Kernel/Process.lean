import Yalnix.Kernel.Memory

/-!
# Processes and switching

`process.c`, `contextswitch.c` and `CheckBlocked`.  `SwapProcess` ends with the
machine about to resume its new active process: what the resumed process does
next is decided by the kernel context it had saved.
-/

namespace Yalnix

/-- A context saved inside `SwapProcess` reloads `sp` and `pc` from the PCB when
it resumes; the copies that `KCCopy` made do not pass there. -/
def KernelContext.reloadsUserContext : KernelContext → Bool
  | .kernelStart => false
  | .kernelFork => false
  | _ => true

namespace Kernel

/--
`init_process`, with the pid that `helper_new_pid` returned and with the value
of `activePCB` at that time (NULL when idle is made).  `none` is the NULL
result after the pool ran out of frames for the kernel stack.
-/
def initProcess (s : Kernel) (activePCB : Option PcbPtr) (pid : Nat)
    (uctxt : UserContext) : Option (PcbPtr × Kernel) :=
  let process := s.npcb
  let numChildren := upd s.pcb.numChildren process 0
  let stack :=
    if pid ≠ 0 then
      allocKernelStack (List.range kernelStackSize)
        (s.pcb.kernelStackPt process) s.pfnList
    else
      some (fun i => ⟨true, Prot.noXWR, (s.kPt (kernelStackBase + i)).pfn⟩,
        s.pfnList)
  match stack with
  | none => none
  | some (kernelStack, pool) =>
      let pcb : PcbTable :=
        { s.pcb with
          pid := upd s.pcb.pid process pid
          ppid := upd s.pcb.ppid process
            (match activePCB with
            | none => pid
            | some active => s.pcb.pid active)
          numChildren :=
            match activePCB with
            | none => numChildren
            | some active => upd numChildren active (numChildren active + 1)
          clockTicks := upd s.pcb.clockTicks process 0
          exitCode := upd s.pcb.exitCode process 0
          userContext := upd s.pcb.userContext process uctxt
          userPageTable := upd s.pcb.userPageTable process fun _ => invalidPte
          userStackPtIndex := upd s.pcb.userStackPtIndex process 0
          userHeapPtIndex := upd s.pcb.userHeapPtIndex process 0
          userTextPtIndex := upd s.pcb.userTextPtIndex process 0
          userDataPtIndex := upd s.pcb.userDataPtIndex process 0
          kernelStackPt := upd s.pcb.kernelStackPt process kernelStack
          blockedCode := upd s.pcb.blockedCode process Blocked.notBlocked
          ttyTerminal := upd s.pcb.ttyTerminal process 0 }
      let history : History :=
        { s.history with
          creator := upd s.history.creator process (activePCB.getD process)
          usedPids := pid :: s.history.usedPids }
      some (process,
        { s with
          pcb := pcb, npcb := s.npcb + 1, pfnList := pool, history := history })

/--
`KCCopy`: the child gets a copy of the running kernel stack, user context
included, and its stack entries become valid.  Every round maps one of the
child's stack frames at the reserved Region 0 page, which is cleared at the end.
-/
def kcCopy (s : Kernel) (child : PcbPtr) (resumeAt : KernelContext) : Kernel :=
  match reservedKernelIndex s.kPt with
  | none => s.toUndefined
  | some reserved =>
      let stack := s.pcb.kernelStackPt child
      let s := s.setKernelContext child resumeAt
      let s := s.setKernelStackPt child fun i =>
        if i < kernelStackSize then { stack i with valid := true } else stack i
      let s := s.setKPt (upd s.kPt reserved invalidPte)
      let s := s.setUctxt child (s.uctxt s.activePCB)
      s.setReg0 child (s.reg0 s.activePCB)

/-- `KCSwitch`: save the context of `curr`, map the kernel stack of `next`. -/
def kcSwitch (s : Kernel) (curr next : PcbPtr) (resumeAt : KernelContext) :
    Kernel :=
  let s := s.setKernelContext curr resumeAt
  s.setKPt fun i =>
    if kernelStackBase ≤ i ∧ i < kernelStackBase + kernelStackSize then
      s.pcb.kernelStackPt next (i - kernelStackBase)
    else s.kPt i

/-- The return from `KernelContextSwitch`: a context saved in `SwapProcess`
takes `sp` and `pc` from the PCB. -/
def reloadContext (s : Kernel) (next : PcbPtr) : Kernel :=
  if (s.pcb.kernelContext next).reloadsUserContext then
    s.setUctxt next (s.pcb.userContext next)
  else s

/--
`SwapProcess`: the active process is put on `moveActive` (unless it is idle or
the queue is NULL) and the first ready process becomes active, or idle when
there is none.  With idle active and nothing ready the call does nothing.
-/
def swapProcess (s : Kernel) (moveActive : Option QueueRef)
    (resumeAt : KernelContext) : Kernel :=
  let tmp := s.activePCB
  let idleActive := s.pcb.pid tmp = s.pcb.pid s.idlePCB
  if idleActive ∧ s.readyQ = [] then
    (s.setKernelContext tmp resumeAt).setMode .kernel
  else
    let move := if idleActive then none else moveActive
    let next := s.readyQ.headD s.idlePCB
    let s := s.setReadyQ s.readyQ.tail
    let s := (s.setUserContext tmp (s.uctxt tmp)).setPtbr1 next
    let s := (s.queueAdd move tmp).setActivePCB next
    ((s.kcSwitch tmp next resumeAt).reloadContext next).setMode .kernel

/-- `CheckBlocked`: the queue a process belongs on, `none` for NULL. -/
def checkBlocked (s : Kernel) (p : PcbPtr) : Option QueueRef × Kernel :=
  if s.pcb.blockedCode p = Blocked.delay then
    if 0 < s.pcb.clockTicks p then
      (some .blockedQ, s.setClockTicks p (s.pcb.clockTicks p - 1))
    else (some .readyQ, s.setBlockedCode p Blocked.notBlocked)
  else if s.pcb.blockedCode p = Blocked.ttyTransmit then
    if s.ttyWriteTrackers (s.pcb.ttyTerminal p) = .terminalOpen then
      (some .readyQ,
        (s.setBlockedCode p Blocked.notBlocked).setTtyTerminal p 0)
    else (none, s)
  else (some .blockedQ, s)

end Kernel

end Yalnix
