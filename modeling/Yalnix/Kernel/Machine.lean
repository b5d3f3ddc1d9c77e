import Yalnix.Foundation.TransitionSystem
import Yalnix.Kernel.Traps

/-!
# Boot and runs

`KernelStart`, and the machine as a labelled transition system: in user mode a
trap is taken and handled up to the return to user mode or the next switch; in
kernel mode the active process resumes.  Traps are only taken in user mode.
-/

namespace Yalnix

/-- What the boot depends on besides the code. -/
structure Boot where
  numOfFrames : Nat
  /-- The first Region 0 page above the kernel's text. -/
  kernelDataPage : Nat
  /-- The first Region 0 page above the kernel heap. -/
  kernelBrkPage : Nat
  idleFile : Executable
  idleArgs : List (List UInt8)
  progFile : Executable
  progArgs : List (List UInt8)
  progPid : Nat
  uctxt : UserContext
  /-- What the PCBs hold before `init_process` has written them. -/
  pcb : PcbTable
  reg0 : PcbPtr → Int

namespace Boot

/-- `SetRegion0_pt`: text, data and heap up to the break and the kernel stack
are mapped; every entry has its own page number as frame. -/
def kPt (b : Boot) : Nat → Pte := fun i =>
  if i < b.kernelDataPage then ⟨true, Prot.xNoWR, i⟩
  else if i < b.kernelBrkPage ∨
      kernelStackBase ≤ i ∧ i < kernelStackBase + kernelStackSize then
    ⟨true, Prot.noXWR, i⟩
  else ⟨false, Prot.none, i⟩

/-- `SetUpGlobals`: the frame pool, smallest number on top. -/
def pfnList (b : Boot) : List Nat :=
  (List.range (b.numOfFrames - vmem1BasePage)).map (vmem1BasePage + ·)

/-- The globals before the first process is made.  Lists are stacks, so the
last id added is the first one out.  A kernel context that was never saved is
never resumed and stands as `kernelStart`. -/
def setUpGlobals (b : Boot) : Kernel :=
  { pcb := { b.pcb with kernelContext := fun _ => .kernelStart }
    npcb := 0
    activePCB := 0
    idlePCB := 0
    readyQ := []
    blockedQ := []
    defunctQ := []
    pfnList := b.pfnList
    globalClockTicks := 0
    ttyReadQueues := fun _ => []
    ttyWriteQueues := fun _ => []
    ttyReadbuffers := fun _ _ => 0
    ttyReadTrackers := fun _ => 0
    ttyWriteTrackers := fun _ => .terminalOpen
    transmitting := fun _ => 0
    pipes := fun _ => ⟨fun _ => 0, 0, maxLocks + maxCvars + 1, false, []⟩
    npipes := 1
    pipeChain := [0]
    lockList := ((List.range 100).map fun i => (i : Int)).reverse
    cvarList := ((List.range 5000).map fun i => maxLocks + i + 1).reverse
    lockStatus := fun _ => unusedLock
    cvarStatus := fun _ => unusedCvar
    lockAquireQueues := fun _ => []
    cvarWaitQueues := fun _ => []
    kPt := b.kPt
    ptbr1 := 0
    uctxt := fun _ => b.uctxt
    reg0 := b.reg0
    mode := .user
    history :=
      { terminated := fun _ => false
        creator := fun p => p
        reporter := fun _ => none
        usedPids := []
        trace := [] } }

/-- The part of `KernelStart` that makes and loads idle, whose load may fail. -/
def startIdle (b : Boot) : Option (PcbPtr × Kernel) :=
  match b.setUpGlobals.initProcess none 0 b.uctxt with
  | none => none
  | some (idle, s) =>
      match s.loadProgram b.idleFile b.idleArgs idle with
      | none => none
      | some (_, s) => some (idle, { s with idlePCB := idle, activePCB := idle })

/-- The end of `KernelStart`: the first program is ready, idle runs. -/
def startProg (s : Kernel) (idle prog : PcbPtr) : Kernel :=
  let s := (s.queueAdd (some .readyQ) prog).setPtbr1 idle
  let s := s.setUctxt idle (s.pcb.userContext idle)
  s.kcCopy prog .kernelStart

/--
`KernelStart`; a first program that does not load halts.  When `init_process`
has no memory for it, `LoadProgram` gets a NULL PCB: its checks come before the
first write to that.
-/
def kernelStart (b : Boot) : Kernel :=
  match b.startIdle with
  | none => b.setUpGlobals.toUndefined
  | some (idle, s) =>
      match s.initProcess (some idle) b.progPid b.uctxt with
      | none =>
          match b.progFile.accepted b.progArgs with
          | none => s.setMode .halted
          | some _ => s.toUndefined
      | some (prog, s) =>
          match s.loadProgram b.progFile b.progArgs prog with
          | none => s.toUndefined
          | some (code, s) =>
              if code = Rc.error then s.setMode .halted
              else startProg s idle prog

end Boot

/-- What `progs/idle.c` and its start-up code call. -/
def Syscall.idleCall : Syscall → Bool
  | .getPid => true
  | .brk _ => true
  | _ => false

/-- The pid that a call takes from `helper_new_pid`. -/
def Syscall.newPid : Syscall → Option Nat
  | .fork newPid => some newPid
  | _ => none

/--
The traps that can be taken.  Idle runs its own program, which does not fault;
`helper_new_pid` returns a pid it has not returned before; a terminal delivers
between one byte and a full line, and reports each transmission once.
-/
def Trap.Possible (s : Kernel) : Trap → Prop
  | .kernel call =>
      (s.activePCB ≠ s.idlePCB ∨ call.idleCall = true) ∧
        ∀ pid ∈ call.newPid, pid ∉ s.history.usedPids
  | .clock => True
  | .illegal => s.activePCB ≠ s.idlePCB
  | .math => s.activePCB ≠ s.idlePCB
  | .memory _ _ => s.activePCB ≠ s.idlePCB
  | .ttyReceive t bytes =>
      t < numTerminals ∧ 0 < bytes.length ∧ bytes.length ≤ terminalMaxLine
  | .ttyTransmit t => t < numTerminals ∧ 0 < s.transmitting t

instance (s : Kernel) : (t : Trap) → Decidable (t.Possible s)
  | .kernel call => inferInstanceAs (Decidable
      ((s.activePCB ≠ s.idlePCB ∨ call.idleCall = true) ∧
        ∀ pid ∈ call.newPid, pid ∉ s.history.usedPids))
  | .clock => inferInstanceAs (Decidable True)
  | .illegal => inferInstanceAs (Decidable (s.activePCB ≠ s.idlePCB))
  | .math => inferInstanceAs (Decidable (s.activePCB ≠ s.idlePCB))
  | .memory _ _ => inferInstanceAs (Decidable (s.activePCB ≠ s.idlePCB))
  | .ttyReceive t bytes => inferInstanceAs (Decidable
      (t < numTerminals ∧ 0 < bytes.length ∧ bytes.length ≤ terminalMaxLine))
  | .ttyTransmit t =>
      inferInstanceAs (Decidable (t < numTerminals ∧ 0 < s.transmitting t))

/-- A trap with the `sp` and `pc` it was taken at, or the resumption of the
active process. -/
inductive Label where
  | trap (ctx : UserContext) (t : Trap)
  | resume

/-- The hardware puts the user context on the kernel stack. -/
def Kernel.enter (s : Kernel) (ctx : UserContext) : Kernel :=
  s.setUctxt s.activePCB ctx

/-- In user mode a trap can be taken, in kernel mode the process resumes. -/
def Label.Enabled (s : Kernel) : Label → Prop
  | .trap _ t => s.mode = .user ∧ t.Possible s
  | .resume => s.mode = .kernel

instance (s : Kernel) : (a : Label) → Decidable (a.Enabled s)
  | .trap _ t => inferInstanceAs (Decidable (s.mode = .user ∧ t.Possible s))
  | .resume => inferInstanceAs (Decidable (s.mode = .kernel))

def Kernel.take (s : Kernel) : Label → Kernel
  | .trap ctx t => (s.enter ctx).handle t
  | .resume => s.resume

inductive Step : Kernel → Label → Kernel → Prop where
  | take {s : Kernel} {a : Label} : a.Enabled s → Step s a (s.take a)

/-- The kernel's text and break lie below its stack, and the first program gets
a pid that idle does not have. -/
structure Boot.WellFormed (b : Boot) : Prop where
  data_le_brk : b.kernelDataPage ≤ b.kernelBrkPage
  brk_lt_stack : b.kernelBrkPage < kernelStackBase
  progPid_ne_zero : b.progPid ≠ 0

/-- The first state in user mode. -/
def Booted (s : Kernel) : Prop :=
  ∃ b : Boot, b.WellFormed ∧ s = b.kernelStart ∧ s.mode = .user

/-- The states of runs from boot whose steps all meet the guard. -/
abbrev Reachable (guard : Kernel → Label → Prop) : Kernel → Prop :=
  TransitionSystem.Reach Booted Step guard

/-! ## Concrete runs -/

/-- The labels can be taken one after another, and each meets the guard. -/
def Kernel.Admits (guard : Kernel → Label → Prop) : Kernel → List Label → Prop
  | _, [] => True
  | s, a :: rest => (a.Enabled s ∧ guard s a) ∧ (s.take a).Admits guard rest

instance instDecidableAdmits (guard : Kernel → Label → Prop) [∀ s a, Decidable (guard s a)] :
    (s : Kernel) → (labels : List Label) → Decidable (s.Admits guard labels)
  | _, [] => inferInstanceAs (Decidable True)
  | s, a :: rest =>
      have := instDecidableAdmits guard (s.take a) rest
      inferInstanceAs (Decidable
        ((a.Enabled s ∧ guard s a) ∧ (s.take a).Admits guard rest))

def Kernel.run (s : Kernel) (labels : List Label) : Kernel :=
  labels.foldl Kernel.take s

theorem Reachable.run {guard : Kernel → Label → Prop} {s : Kernel}
    (h : Reachable guard s) (labels : List Label)
    (hadmits : s.Admits guard labels) : Reachable guard (s.run labels) := by
  induction labels generalizing s with
  | nil => exact h
  | cons a rest ih =>
      obtain ⟨⟨henabled, hguard⟩, hrest⟩ := hadmits
      exact ih (.next h hguard (.take henabled)) hrest

/-- A program of one text page, one data page and one stack page. -/
def smallProgram : Executable :=
  { opens := true
    info := some ⟨vmem1Base, vmem1Base, 1, vmem1Base + pageSize, 1, 0,
      vmem1Base + pageSize + 16, vmem1Base + pageSize + 32⟩
    textReads := true
    dataReads := true }

/-- A machine with a pool of `frames` frames that boots `smallProgram`. -/
def Boot.small (frames : Nat) : Boot :=
  { numOfFrames := vmem1BasePage + frames
    kernelDataPage := 2
    kernelBrkPage := 4
    idleFile := smallProgram
    idleArgs := []
    progFile := smallProgram
    progArgs := []
    progPid := 1
    uctxt := ⟨0, 0⟩
    pcb :=
      { pid := fun _ => 0
        ppid := fun _ => 0
        numChildren := fun _ => 0
        clockTicks := fun _ => 0
        exitCode := fun _ => 0
        userContext := fun _ => ⟨0, 0⟩
        kernelContext := fun _ => .kernelStart
        userPageTable := fun _ _ => invalidPte
        userStackPtIndex := fun _ => 0
        userHeapPtIndex := fun _ => 0
        userTextPtIndex := fun _ => 0
        userDataPtIndex := fun _ => 0
        kernelStackPt := fun _ _ => invalidPte
        blockedCode := fun _ => 0
        ttyTerminal := fun _ => 0 }
    reg0 := fun _ => 0 }

theorem Boot.small_wellFormed (frames : Nat) : (Boot.small frames).WellFormed :=
  ⟨by simp [small], by simp [small, kernelStackBase], by simp [small]⟩

/-- A run of the small machine, from its boot on. -/
theorem reachable_small {guard : Kernel → Label → Prop} (frames : Nat)
    (labels : List Label)
    (hmode : (Boot.small frames).kernelStart.mode = .user)
    (hadmits : (Boot.small frames).kernelStart.Admits guard labels) :
    Reachable guard ((Boot.small frames).kernelStart.run labels) :=
  Reachable.run
    (.start ⟨Boot.small frames, Boot.small_wellFormed frames, rfl, hmode⟩)
    labels hadmits

/-- A system call of the active process, with its context at `0`. -/
def call (c : Syscall) : Label := .trap ⟨0, 0⟩ (.kernel c)

/-- The clock interrupts the active process, and the next one resumes. -/
def tick : List Label := [.trap ⟨0, 0⟩ .clock, .resume]

end Yalnix
