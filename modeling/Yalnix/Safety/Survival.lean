import Yalnix.Memory.LoadedSpace
import Yalnix.Memory.MemoryFaults
import Yalnix.Memory.SingleOwner
import Yalnix.Process.Schedule
import Yalnix.Safety.Undefined
import Yalnix.Sync.Subscripts

/-!
# Runs that stay inside

The accesses of the kernel that the model follows: subscripts into page tables
and into the tables of locks, condition variables and terminals, the writes to a
new image, and the pointers to PCBs and pipes that may be NULL.  With programs
that fit only calls and addresses that the kernel does not check can leave them.
Pointers of the user, a `malloc` that fails, the PCB that `delete_process` frees
under `SwapProcess`, a pipe that is reclaimed under a sleeping reader and the
boot's interrupt vector are not followed.
-/

namespace Yalnix

open Kernel

/-! ## Any programs -/

namespace Kernel

instance (l : Layout) (pool : List Nat) : Decidable (l.FramesIn pool) :=
  inferInstanceAs (Decidable (_ ∧ _))

instance (s : Kernel) (args : ExecArgs) : Decidable (s.ExecFaults args) :=
  inferInstanceAs (Decidable (_ ∧ ∃ _ ∈ _, _))

instance (s : Kernel) (addr : Nat) : Decidable (s.BrkLeavesTable addr) :=
  inferInstanceAs (Decidable (_ ∧ _))

instance (s : Kernel) (addr : Nat) (beyondValid : Bool) :
    Decidable (s.FaultLeavesTable addr beyondValid) :=
  inferInstanceAs (Decidable (_ ∧ _))

instance (s : Kernel) (a : Label) : Decidable (s.LeavesTable a) := by
  unfold LeavesTable
  split <;> infer_instance

instance (s : Kernel) (c : Syscall) : Decidable (s.SafeCall c) := by
  unfold SafeCall
  split <;> infer_instance

instance (s : Kernel) (a : Label) : Decidable (s.SafeStep a) := by
  unfold SafeStep
  split <;> infer_instance

/-- The step does not stop the model: it misuses no call, and it leaves neither
the page table nor the pages of a new image. -/
def Sound (s : Kernel) (a : Label) : Prop := ¬ s.Misused a ∧ ¬ s.LeavesTable a

instance (s : Kernel) (a : Label) : Decidable (s.Sound a) :=
  inferInstanceAs (Decidable (_ ∧ _))

/-- The page table entries that a memory trap reads. -/
def pageReads (s : Kernel) : Label → List Int
  | .trap _ (.memory addr beyondValid) => s.trapMemoryReads addr beyondValid
  | _ => []

/-- No access of the step that the model follows goes wrong. -/
structure StaysInside (s : Kernel) (a : Label) : Prop where
  live : (s.take a).Live
  subscripts : InBounds (s.subscripts a)
  pages : ∀ i ∈ s.pageReads a, 0 ≤ i ∧ i < userPtSize

end Kernel

/-- A memory trap is at an address of Region 1. -/
def Label.FaultsInRegion1 : Label → Prop
  | .trap _ (.memory addr _) =>
      vmem1Base ≤ addr % 2 ^ 32 ∧ addr % 2 ^ 32 < vmem1Limit
  | _ => True

instance (a : Label) : Decidable a.FaultsInRegion1 := by
  unfold Label.FaultsInRegion1
  split <;> infer_instance

/-- The step needs no check that the kernel does not make. -/
structure Kernel.Checked (s : Kernel) (a : Label) : Prop where
  misused : ¬ s.Misused a
  ids : s.SafeStep a
  address : a.FaultsInRegion1

instance (s : Kernel) (a : Label) : Decidable (s.Checked a) :=
  decidable_of_iff (¬ s.Misused a ∧ s.SafeStep a ∧ a.FaultsInRegion1)
    ⟨fun ⟨hmisused, hids, haddress⟩ => ⟨hmisused, hids, haddress⟩,
      fun ⟨hmisused, hids, haddress⟩ => ⟨hmisused, hids, haddress⟩⟩

namespace Kernel

variable {s : Kernel}

theorem faultTarget_wraps (addr : Nat) :
    faultTarget (addr % 2 ^ 32) = faultTarget addr := by
  have hword : toInt32 ((addr % 2 ^ 32 : Nat) : Int) = toInt32 addr := by
    unfold toInt32
    omega
  unfold faultTarget
  rw [hword]

/-- A memory trap whose loop stays in the table reads nothing else, if its
address is in Region 1. -/
theorem pageReads_inside_iff {a : Label} (h : ¬ s.LeavesTable a) :
    (∀ i ∈ s.pageReads a, 0 ≤ i ∧ i < userPtSize) ↔ a.FaultsInRegion1 := by
  have hnone : (∀ i ∈ ([] : List Int), 0 ≤ i ∧ i < userPtSize) ↔ True :=
    iff_of_true nofun trivial
  cases a with
  | resume => exact hnone
  | trap ctx t =>
      cases t with
      | memory addr beyondValid =>
          have hregion := faultTarget_inside_iff
            (Nat.mod_lt addr (by decide : 0 < 2 ^ 32))
          rw [faultTarget_wraps] at hregion
          have hfirst : faultTarget addr ∈ s.trapMemoryReads addr beyondValid :=
            List.mem_cons_self
          simp only [pageReads, Label.FaultsInRegion1]
          rw [← hregion]
          refine ⟨fun hall => hall _ hfirst, fun hin i hi => ?_⟩
          unfold trapMemoryReads at hi
          simp only [List.mem_cons] at hi
          rcases hi with hi | hi
          · rw [hi]
            exact hin
          · split at hi
            · cases hi
            · rename_i hfree
              obtain ⟨j, hj, rfl⟩ := List.mem_map.1 hi
              have hloop := growReads_inside hj
              have hstack : ¬ ((userPtSize : Int) <
                  s.pcb.userStackPtIndex s.activePCB ∧
                    faultTarget addr < s.pcb.userStackPtIndex s.activePCB) :=
                fun hleaves => h ⟨hin.1,
                  by simpa using fun hvalid => hfree (.inr hvalid), hleaves⟩
              omega
      | _ => exact hnone

end Kernel

theorem Reachable.staysInside_iff {s : Kernel}
    (h : Reachable (fun _ _ => True) s) {a : Label} (ha : a.Enabled s) :
    s.StaysInside a ↔ s.Checked a ∧ ¬ s.LeavesTable a := by
  have hsubscripts : InBounds (s.subscripts a) ↔ s.SafeStep a := by
    have hsync := (Reachable.quiescent h ha.live).sync
    cases a with
    | resume =>
        exact iff_of_true (resume_inBounds hsync (h.atTerminals ha.live))
          trivial
    | trap ctx t =>
        cases t with
        | kernel c =>
            obtain ⟨i, hi⟩ := Reachable.idsTracked h
            exact call_inBounds_iff hsync (Tracked.numbered hi) c
        | _ => exact iff_of_true inBounds_nil trivial
  constructor
  · rintro ⟨hlive, hinside, hpages⟩
    obtain ⟨hmisused, htable⟩ := (h.live_iff ha).1 hlive
    exact ⟨⟨hmisused, hsubscripts.1 hinside,
      (pageReads_inside_iff htable).1 hpages⟩, htable⟩
  · rintro ⟨⟨hmisused, hids, haddress⟩, htable⟩
    exact ⟨(h.live_iff ha).2 ⟨hmisused, htable⟩, hsubscripts.2 hids,
      (pageReads_inside_iff htable).2 haddress⟩

/-- A run stays inside exactly when each of its steps needs no check that the
kernel does not make and leaves no page table and no image. -/
theorem run_stays_inside_iff {s : Kernel} (h : Reachable (fun _ _ => True) s)
    (labels : List Label) (hadmits : s.Admits (fun _ _ => True) labels) :
    TransitionSystem.Admits Kernel.take StaysInside s labels ↔
      TransitionSystem.Admits Kernel.take
        (fun s a => s.Checked a ∧ ¬ s.LeavesTable a) s labels := by
  have hreach (s : Kernel) (a : Label) (hs : Reachable (fun _ _ => True) s)
      (hok : a.Enabled s ∧ True) : Reachable (fun _ _ => True) (s.take a) :=
    .next hs hok.2 (.take hok.1)
  exact TransitionSystem.Admits.congr hreach
    (fun s a hs hok => hs.staysInside_iff hok.1) h hadmits.system

/-- `Brk`, a fork with frames and `Acquire` of the last lock stay inside;
`Acquire` of the id behind it does not. -/
theorem run_stays_inside_iff_acquire :
    let s := (Boot.small 30).kernelStart.run tick
    let labels := [call (.brk (pageAddr 6)), call (.fork 2),
      call (.acquire 99), call (.acquire 100)]
    ¬ TransitionSystem.Admits Kernel.take StaysInside s labels ∧
      TransitionSystem.Admits Kernel.take StaysInside s labels.dropLast := by
  intro s labels
  have hreach : Reachable (fun _ _ => True) s :=
    reachable_small 30 tick (by decide +kernel) (by decide +kernel)
  rw [run_stays_inside_iff hreach labels (by decide +kernel),
    run_stays_inside_iff hreach labels.dropLast (by decide +kernel)]
  exact ⟨by decide +kernel, by decide +kernel⟩

/-! ## Programs that fit the page table -/

/-- The segments of the layout and its indices lie inside the page table. -/
structure Layout.InTable (l : Layout) : Prop where
  text : 0 ≤ l.textPg1 ∧ l.textPg1 + l.textCount ≤ userPtSize
  data : 0 ≤ l.dataPg1 ∧ l.dataPg1 + l.dataCount ≤ userPtSize
  heap : 0 ≤ l.heapIndex ∧ l.heapIndex ≤ userPtSize
  stack : 0 ≤ l.stackIndex ∧ l.stackIndex + l.stackCount ≤ userPtSize

instance (l : Layout) : Decidable l.InTable :=
  decidable_of_iff ((0 ≤ l.textPg1 ∧ l.textPg1 + l.textCount ≤ userPtSize) ∧
      (0 ≤ l.dataPg1 ∧ l.dataPg1 + l.dataCount ≤ userPtSize) ∧
      (0 ≤ l.heapIndex ∧ l.heapIndex ≤ userPtSize) ∧
      (0 ≤ l.stackIndex ∧ l.stackIndex + l.stackCount ≤ userPtSize))
    ⟨fun ⟨htext, hdata, hheap, hstack⟩ => ⟨htext, hdata, hheap, hstack⟩,
      fun ⟨htext, hdata, hheap, hstack⟩ => ⟨htext, hdata, hheap, hstack⟩⟩

/-- What the checks of `LoadProgram` let through is inside the page table and
can be written where the loader writes it. -/
def Executable.InTable (file : Executable) (args : List (List UInt8)) : Prop :=
  ∀ li ∈ file.accepted args,
    (layout li args).InTable ∧ (layout li args).WritesInside

instance (file : Executable) (args : List (List UInt8)) :
    Decidable (file.InTable args) :=
  inferInstanceAs (Decidable (∀ _ ∈ _, _))

/-- An `Exec` loads a program that fits the page table. -/
def LoadsInTable (_ : Kernel) (a : Label) : Prop :=
  ∀ e ∈ a.execArgs, e.file.InTable e.args

instance (s : Kernel) (a : Label) : Decidable (LoadsInTable s a) :=
  inferInstanceAs (Decidable (∀ _ ∈ _, _))

theorem Layout.InTable.mapped {l : Layout} (h : l.InTable) {pool : List Nat}
    {i : Int} (hi : i ∈ mappedSubscripts l pool) : 0 ≤ i ∧ i < userPtSize := by
  have hrange {first : Int} {count : Nat} {pool : List Nat}
      (hfirst : 0 ≤ first ∧ first + count ≤ userPtSize)
      (hi : i ∈ (loopWrites first count pool).1) : 0 ≤ i ∧ i < userPtSize := by
    have hin := loopWrites_inRange hi
    omega
  simp only [mappedSubscripts] at hi
  split at hi
  · exact hrange h.text hi
  · split at hi
    · rcases List.mem_append.1 hi with hi | hi
      · exact hrange h.text hi
      · exact hrange h.data hi
    · rcases List.mem_append.1 hi with hi | hi
      · rcases List.mem_append.1 hi with hi | hi
        · exact hrange h.text hi
        · exact hrange h.data hi
      · exact hrange h.stack hi

/-- The indices that bound the loops of `KernelBrk` and `TrapMemoryHandler`. -/
structure Space.InTable (x : Space) : Prop where
  data : 0 ≤ x.dataIndex
  heap : 0 ≤ x.heapIndex ∧ x.heapIndex ≤ userPtSize
  stack : x.stackIndex ≤ userPtSize

def Memory.InTable (m : Memory) : Prop := ∀ p < m.npcb, (m.space p).InTable

namespace Memory

variable {m m' m'' : Memory}

/-- No index is written and no PCB is made. -/
structure SameIndices (m m' : Memory) : Prop where
  npcb : m'.npcb = m.npcb
  heap : m'.userHeapPtIndex = m.userHeapPtIndex
  stack : m'.userStackPtIndex = m.userStackPtIndex
  data : m'.userDataPtIndex = m.userDataPtIndex

theorem SameIndices.inTable (h : SameIndices m m') (hm : m.InTable) :
    m'.InTable := by
  intro p hp
  have hspace := hm p (h.npcb ▸ hp)
  constructor
  · simpa [space, h.data] using hspace.data
  · simpa [space, h.heap] using hspace.heap
  · simpa [space, h.stack] using hspace.stack

theorem Quiet.inTable (h : m.Quiet m') (hm : m.InTable) : m'.InTable := by
  intro p hp
  rw [h.space p]
  exact hm p (h.npcb ▸ hp)

end Memory

namespace Kernel

variable {s s' : Kernel} {p : PcbPtr}

/-! ### Brk and memory traps -/

theorem InTable.brk_inside (h : (s.space s.activePCB).InTable) (addr : Nat) :
    ¬ s.BrkLeavesTable addr := by
  obtain ⟨hdata, hheap, hstack⟩ := h
  rintro ⟨-, hbase, htop, hloops⟩
  omega

theorem InTable.fault_inside (h : (s.space s.activePCB).InTable) (addr : Nat)
    (beyondValid : Bool) : ¬ s.FaultLeavesTable addr beyondValid := by
  rintro ⟨-, -, houtside, -⟩
  exact absurd h.stack (Int.not_le.2 houtside)

theorem BrkOutcome.inTable {addr : Nat} {r : Kernel} (h : BrkOutcome s addr r)
    (hx : (s.space s.activePCB).InTable) : (r.space s.activePCB).InTable := by
  have hmoved {table : Nat → Pte} (hinside : s.BrkInside addr) :
      Space.InTable { s.space s.activePCB with
        table := table, heapIndex := brkTarget addr } := by
    obtain ⟨-, hbase, htop⟩ := hinside
    obtain ⟨hdata, hheap, hstack⟩ := hx
    exact ⟨hdata, by simp only; omega, hstack⟩
  cases h with
  | refused => exact hx
  | undefined => exact hx
  | runsOut =>
      rw [failed_space]
      exact ⟨hx.data, hx.heap, hx.stack⟩
  | grown hgrows =>
      rw [answered_space]
      exact hmoved hgrows.1
  | shrunk hinside =>
      rw [answered_space]
      exact hmoved hinside

end Kernel

theorem SpacesKept.inTable {s s' : Kernel} {p : PcbPtr}
    (h : SpacesKept s p s') (hnpcb : s'.memory.npcb = s.memory.npcb)
    (hp : (s'.space p).InTable) (hs : s.memory.InTable) :
    s'.memory.InTable := by
  intro q hq
  by_cases hother : q = p
  · subst hother
    exact hp
  · have hspace : s'.memory.space q = s.memory.space q := h.space q hother
    exact hspace ▸ hs q (hnpcb ▸ hq)

namespace Kernel

variable {s s' : Kernel} {p : PcbPtr}

theorem kernelBrk_inTable (h : s.memory.InTable) (hactive : s.activePCB < s.npcb)
    (addr : Nat) : (s.kernelBrk addr).memory.InTable :=
  (kernelBrk_kept addr).inTable (kernelBrk_rewritten (s := s) addr).npcb
    ((kernelBrk_outcome s addr).inTable (h _ hactive)) h

theorem trapMemoryHandler_inTable (h : s.memory.InTable) (addr : Nat)
    (beyondValid : Bool) :
    (s.trapMemoryHandler addr beyondValid).memory.InTable := by
  unfold trapMemoryHandler
  simp only
  split
  · exact (kernelExit_quiet Rc.error).inTable h
  · split
    · exact h
    · exact fun p hp => ⟨(h p hp).data, (h p hp).heap, (h p hp).stack⟩

/-! ### Loading -/

theorem loadSegment_indices {first : Int} {count : Nat} {ok : Bool}
    (h : s.loadSegment p first count = some (ok, s')) :
    s.memory.SameIndices s'.memory := by
  unfold loadSegment at h
  split at h <;> cases h <;> exact ⟨rfl, rfl, rfl, rfl⟩

theorem readImage_indices {file : Executable} {li : LoadInfo} {l : Layout}
    {code : Int} (h : s.readImage file li l p = some (code, s')) :
    s.memory.SameIndices s'.memory := by
  rcases readImage_cases h with ⟨-, rfl, -⟩ | ⟨-, -, rfl⟩
  · exact ⟨rfl, rfl, rfl, rfl⟩
  · exact ⟨rfl, rfl, rfl, rfl⟩

theorem setDataIndex_inTable {i : Int} (h : s.memory.InTable) (hi : 0 ≤ i) :
    (s.setDataIndex p i).memory.InTable := by
  intro q hq
  obtain ⟨hdata, hheap, hstack⟩ := h q hq
  refine ⟨?_, hheap, hstack⟩
  show 0 ≤ upd s.pcb.userDataPtIndex p i q
  by_cases hp : q = p
  · simpa [hp] using hi
  · rw [upd_other hp]
    exact hdata

theorem setHeapStackIndex_inTable {i j : Int} (h : s.memory.InTable)
    (hi : 0 ≤ i ∧ i ≤ userPtSize) (hj : j ≤ userPtSize) :
    ((s.setHeapIndex p i).setStackIndex p j).memory.InTable := by
  intro q hq
  obtain ⟨hdata, hheap, hstack⟩ := h q hq
  refine ⟨hdata, ?_, ?_⟩
  · show 0 ≤ upd s.pcb.userHeapPtIndex p i q ∧
      upd s.pcb.userHeapPtIndex p i q ≤ userPtSize
    by_cases hp : q = p
    · simpa [hp] using hi
    · rw [upd_other hp]
      exact hheap
  · show upd s.pcb.userStackPtIndex p j q ≤ userPtSize
    by_cases hp : q = p
    · simpa [hp] using hj
    · rw [upd_other hp]
      exact hstack

theorem buildImage_inTable {l : Layout} {ok : Bool} (hl : l.InTable)
    (h : s.memory.InTable) (hbuild : s.buildImage l p = some (ok, s')) :
    s'.memory.InTable := by
  have hsame : s.memory.SameIndices
      ((s.discardImage l p).setTextIndex p l.textPg1).memory :=
    ⟨rfl, rfl, rfl, rfl⟩
  have hstart := hsame.inTable h
  unfold buildImage at hbuild
  simp only at hbuild
  split at hbuild
  · cases hbuild
  · rename_i htext
    cases hbuild
    exact (loadSegment_indices htext).inTable hstart
  · rename_i s₁ htext
    have h₁ := setDataIndex_inTable (p := p)
      ((loadSegment_indices htext).inTable hstart) hl.data.1
    split at hbuild
    · cases hbuild
    · rename_i hdata
      cases hbuild
      exact (loadSegment_indices hdata).inTable h₁
    · rename_i s₂ hdata
      have hstack : l.stackIndex ≤ userPtSize := by
        have htop := hl.stack.2
        omega
      have h₂ := setHeapStackIndex_inTable (p := p)
        ((loadSegment_indices hdata).inTable h₁) hl.heap hstack
      exact (loadSegment_indices hbuild).inTable h₂

theorem loadProgram_inTable {file : Executable} {args : List (List UInt8)}
    {code : Int} (hfile : file.InTable args) (h : s.memory.InTable)
    (hload : s.loadProgram file args p = some (code, s')) :
    s'.memory.InTable := by
  rw [loadProgram_eq] at hload
  cases haccepted : file.accepted args with
  | none =>
      rw [haccepted] at hload
      cases hload
      exact h
  | some li =>
      have hl : (layout li args).InTable := (hfile li haccepted).1
      rw [haccepted] at hload
      simp only [loadImage_eq] at hload
      split at hload
      · cases hload
      · rename_i hbuild
        cases hload
        exact buildImage_inTable hl h hbuild
      · rename_i s₁ hbuild
        exact (readImage_indices hload).inTable (buildImage_inTable hl h hbuild)

theorem execCase_inTable {args : ExecArgs} (hfile : args.file.InTable args.args)
    (h : s.memory.InTable) : (s.execCase args).memory.InTable := by
  unfold execCase
  split
  · exact h
  · rename_i code s₁ hexec
    have h₁ : s₁.memory.InTable := by
      unfold kernelExec at hexec
      split at hexec
      · cases hexec
        exact h
      · simp only at hexec
        have hcleared : (s.setUserContext s.activePCB ⟨0, 0⟩).memory.InTable :=
          h
        split at hexec
        · cases hexec
        · rename_i hload
          have hloaded := loadProgram_inTable hfile hcleared hload
          split at hexec <;> cases hexec <;> exact hloaded
    split
    · exact h₁
    · exact (kernelExit_quiet (s := s₁.setReg0 s₁.activePCB code)
        Rc.error).inTable h₁

/-! ### Fork -/

theorem kcCopy_indices (child : PcbPtr) (k : KernelContext) :
    s.memory.SameIndices (s.kcCopy child k).memory := by
  unfold kcCopy
  split <;> exact ⟨rfl, rfl, rfl, rfl⟩

theorem forkReady_indices (child : PcbPtr) :
    s.memory.SameIndices (s.forkReady child).memory := by
  have hcopy := kcCopy_indices (s := s.queueAdd (some .readyQ) child) child
    .kernelFork
  rw [queueAdd_memory] at hcopy
  unfold forkReady
  simp only
  split
  · exact hcopy
  · exact hcopy

theorem forkCopy_indices (child parent : PcbPtr) (reserved : Nat) :
    s.memory.SameIndices (s.forkCopy child parent reserved).memory := by
  unfold forkCopy
  split
  · exact ⟨rfl, rfl, rfl, rfl⟩
  · rename_i table pool mapped _
    have hready := forkReady_indices (s := ((s.setUserPageTable child
      table).setPfnList pool).setKPt (upd s.kPt reserved invalidPte)) child
    exact ⟨hready.npcb, hready.heap, hready.stack, hready.data⟩

theorem initProcess_inTable {active : Option PcbPtr} {pid : Nat}
    {ctx : UserContext} {c : PcbPtr} (h : s.memory.InTable)
    (hinit : s.initProcess active pid ctx = some (c, s')) :
    s'.memory.InTable := by
  obtain ⟨rfl, hkept⟩ := initProcess_kept hinit
  obtain ⟨-, hnpcb, -⟩ := initProcess_made hinit
  intro q hq
  have hq : q < s.npcb + 1 := hnpcb ▸ hq
  by_cases hnew : q = s.npcb
  · subst hnew
    unfold initProcess at hinit
    simp only at hinit
    split at hinit
    · cases hinit
    · cases hinit
      constructor <;> simp [Memory.space, memory, userPtSize]
  · have hspace : s'.memory.space q = s.memory.space q := hkept.space q hnew
    rw [hspace]
    exact h q (show q < s.npcb by omega)

theorem copyIndices_inTable {child parent : PcbPtr} (h : s.memory.InTable)
    (hparent : parent < s.npcb) :
    (s.copyIndices child parent).memory.InTable := by
  obtain ⟨hdata, hheap, hstack⟩ := h parent hparent
  refine (copyIndices_kept child parent).inTable rfl ?_ h
  constructor
  · simpa [space, copyIndices, memory, Memory.space, setHeapIndex, setStackIndex,
      setDataIndex, setTextIndex, setPcb] using hdata
  · simpa [space, copyIndices, memory, Memory.space, setHeapIndex, setStackIndex,
      setDataIndex, setTextIndex, setPcb] using hheap
  · simpa [space, copyIndices, memory, Memory.space, setHeapIndex, setStackIndex,
      setDataIndex, setTextIndex, setPcb] using hstack

theorem kernelFork_inTable (h : s.memory.InTable) (hactive : s.activePCB < s.npcb)
    (pid : Nat) : (s.kernelFork pid).memory.InTable := by
  unfold kernelFork
  split
  · exact h
  · rename_i child forked hinit
    have hparent : s.activePCB < forked.npcb := by
      rw [(initProcess_made hinit).2.1]
      exact Nat.lt_succ_of_lt hactive
    have hcopied : (forked.copyIndices child s.activePCB).memory.InTable :=
      copyIndices_inTable (initProcess_inTable h hinit) hparent
    simp only
    split
    · exact hcopied
    · exact (forkCopy_indices _ _ _).inTable hcopied

/-! ### Every step -/

theorem take_inTable {a : Label} (h : s.memory.InTable)
    (hactive : s.activePCB < s.npcb) (hloads : LoadsInTable s a) :
    (s.take a).memory.InTable := by
  cases a with
  | resume => exact resume_quiet.inTable h
  | trap ctx t =>
      have hentered : (s.enter ctx).memory.InTable := h
      by_cases hquiet : t.usesMemory = false
      · exact (handle_quiet (s := s.enter ctx) hquiet).inTable hentered
      · cases t with
        | kernel call =>
            cases call with
            | fork pid => exact kernelFork_inTable hentered hactive pid
            | exec args => exact execCase_inTable (hloads args rfl) hentered
            | exit code =>
                exact (kernelExit_quiet (s := s.enter ctx) code).inTable hentered
            | brk addr => exact kernelBrk_inTable hentered hactive addr
            | _ => exact absurd rfl hquiet
        | memory addr beyondValid =>
            exact trapMemoryHandler_inTable hentered addr beyondValid
        | _ => exact absurd rfl hquiet

/-- A process whose space lies inside the page table cannot leave it. -/
theorem not_leavesTable {a : Label} (h : (s.space s.activePCB).InTable)
    (hloads : LoadsInTable s a) : ¬ s.LeavesTable a := by
  cases a with
  | resume => simp [LeavesTable]
  | trap ctx t =>
      cases t with
      | kernel call =>
          cases call with
          | exec args =>
              rintro ⟨-, li, haccepted, hfaults⟩
              obtain ⟨hinside, hwrites⟩ := hloads args rfl li haccepted
              rcases hfaults with ⟨i, hi, houtside⟩ | ⟨-, -, houtside⟩
              · exact houtside (hinside.mapped hi)
              · exact houtside hwrites
          | brk addr => exact InTable.brk_inside h addr
          | _ => simp [LeavesTable]
      | memory addr beyondValid => exact InTable.fault_inside h addr beyondValid
      | _ => simp [LeavesTable]

end Kernel

/-! ### Boot and runs -/

/-- Both programs of the boot fit the page table. -/
structure Boot.LoadsInTable (b : Boot) : Prop where
  idle : b.idleFile.InTable b.idleArgs
  prog : b.progFile.InTable b.progArgs

theorem Boot.LoadsInTable.started {b : Boot} (h : b.LoadsInTable)
    (hmode : b.kernelStart.mode = .user) : b.kernelStart.memory.InTable := by
  obtain ⟨st, heq⟩ := Boot.stages hmode
  have hempty : b.setUpGlobals.memory.InTable :=
    fun p hp => absurd hp (Nat.not_lt_zero p)
  have hloaded := Kernel.loadProgram_inTable h.idle
    (Kernel.initProcess_inTable hempty st.idle) st.loadIdle
  have hidle : ({ st.idleLoaded with
      idlePCB := 0, activePCB := 0 } : Kernel).memory.InTable :=
    fun p hp => hloaded p hp
  have hready := Kernel.loadProgram_inTable h.prog
    (Kernel.initProcess_inTable hidle st.prog) st.loadProg
  rw [heq]
  exact (Kernel.kcCopy_indices _ _).inTable hready

/-- Runs of programs that fit the page table stay inside unless a step needs a
check that the kernel does not make. -/
theorem fitting_run_stays_inside_iff {b : Boot} (hb : b.WellFormed)
    (hmode : b.kernelStart.mode = .user) (hboot : b.LoadsInTable)
    (labels : List Label) (hadmits : b.kernelStart.Admits LoadsInTable labels) :
    TransitionSystem.Admits Kernel.take StaysInside b.kernelStart labels ↔
      TransitionSystem.Admits Kernel.take Checked b.kernelStart labels := by
  let I (s : Kernel) : Prop := Reachable LoadsInTable s ∧ s.memory.InTable
  have hactive {s : Kernel} (hs : Reachable LoadsInTable s) (hlive : s.Live) :
      s.activePCB < s.npcb := (hs.census hlive).active
  have hkept (s : Kernel) (a : Label) (hs : I s)
      (hok : a.Enabled s ∧ LoadsInTable s a) : I (s.take a) :=
    ⟨.next hs.1 hok.2 (.take hok.1),
      Kernel.take_inTable hs.2 (hactive hs.1 hok.1.live) hok.2⟩
  have hstep (s : Kernel) (a : Label) (hs : I s)
      (hok : a.Enabled s ∧ LoadsInTable s a) :
      s.StaysInside a ↔ s.Checked a := by
    have hinside := hs.2 s.activePCB (hactive hs.1 hok.1.live)
    have hreach : Reachable (fun _ _ => True) s :=
      hs.1.mono fun _ _ _ => trivial
    rw [hreach.staysInside_iff hok.1]
    exact and_iff_left (Kernel.not_leavesTable hinside hok.2)
  have hstart : I b.kernelStart :=
    ⟨.start ⟨b, hb, rfl, hmode⟩, hboot.started hmode⟩
  exact TransitionSystem.Admits.congr hkept hstep hstart hadmits.system

/-- The program forks, loads itself again, moves its break and faults in its
stack. -/
theorem fitting_run_stays_inside_iff_exec :
    let b := Boot.small 40
    let load : ExecArgs := ⟨true, smallProgram, []⟩
    TransitionSystem.Admits Kernel.take StaysInside b.kernelStart
      (tick ++ [call (.fork 2), call (.exec load), call (.brk (pageAddr 6)),
        .trap ⟨0, 0⟩ (.memory (pageAddr 120) false), call (.exit 3), .resume]) := by
  intro b load
  have hsmall : smallProgram.InTable [] := by decide +kernel
  exact (fitting_run_stays_inside_iff (Boot.small_wellFormed 40)
    (by decide +kernel) ⟨hsmall, hsmall⟩ _ (by decide +kernel)).2
      (by decide +kernel)

end Yalnix
