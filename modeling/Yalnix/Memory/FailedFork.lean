import Yalnix.Memory.FailedBreak
import Yalnix.Memory.ForkMemory
import Yalnix.Process.Population

/-!
# Failing Fork calls

A Fork that finds no Region 0 page to copy through or runs out of frames for
the pages has counted the child already.  One that runs out of frames for the
kernel stack does not return at all: the NULL result is written through first.
-/

namespace Yalnix

open Kernel

/-- The free frames, the Region 0 table, the caller's child count and page table
and all queues are as before the call. -/
structure Kernel.ForkUndone (s r : Kernel) : Prop where
  frames : r.pfnList.Perm s.pfnList
  kPt : r.kPt = s.kPt
  numChildren :
    r.pcb.numChildren s.activePCB = s.pcb.numChildren s.activePCB
  table : r.pcb.userPageTable s.activePCB = s.pcb.userPageTable s.activePCB
  readyQ : r.readyQ = s.readyQ
  blockedQ : r.blockedQ = s.blockedQ
  defunctQ : r.defunctQ = s.defunctQ
  ttyReadQueues : r.ttyReadQueues = s.ttyReadQueues
  ttyWriteQueues : r.ttyWriteQueues = s.ttyWriteQueues
  lockAquireQueues : r.lockAquireQueues = s.lockAquireQueues
  cvarWaitQueues : r.cvarWaitQueues = s.cvarWaitQueues
  pipeQueues : ∀ p, (r.pipes p).queue = (s.pipes p).queue

namespace Kernel

variable {s : Kernel} {pid : Nat}

/-- `init_process` as `KernelFork` calls it. -/
def forkInit (s : Kernel) (pid : Nat) : Option (PcbPtr × Kernel) :=
  s.initProcess (some s.activePCB) pid (s.uctxt s.activePCB)

/-- A call that returns `ERROR` changes nothing, and a failed `init_process`
makes the call return `ERROR`. -/
structure ForkFailsCleanly (s : Kernel) (pid : Nat) : Prop where
  undone : (s.kernelFork pid).Failed s.activePCB →
    s.ForkUndone (s.kernelFork pid)
  reported : s.forkInit pid = none → (s.kernelFork pid).Failed s.activePCB

/-- The frames of a copy of the active process. -/
def forkFrames (s : Kernel) : Nat :=
  kernelStackSize + (validPages (s.pcb.userPageTable s.activePCB)).length

/-- There is a Region 0 page to copy through, and the pool has frames for the
kernel stack and the pages of the child. -/
def ForkEnough (s : Kernel) : Prop :=
  (reservedKernelIndex s.kPt).isSome = true ∧
    s.forkFrames ≤ s.pfnList.length ∧ 0 ∉ s.pfnList.take s.forkFrames

/-! ## The loops -/

theorem allocKernelStack_isSome_iff {pages : List Nat} {table : Nat → Pte}
    {pool : List Nat} :
    (allocKernelStack pages table pool).isSome = true ↔
      pages.length ≤ pool.length ∧ 0 ∉ pool.take pages.length := by
  induction pages generalizing table pool with
  | nil =>
      apply iff_of_true
      · rfl
      · simp
  | cons i pages ih =>
      rw [allocKernelStack]
      cases pool with
      | nil =>
          apply iff_of_false
          · exact Bool.false_ne_true
          · simp
      | cons pfn pool =>
          rw [List.length_cons, enough_cons]
          by_cases hzero : pfn = 0
          · simp [allocatePFN, hzero]
          · simp only [allocatePFN, if_neg hzero, ih]
            simp [hzero]

theorem copyUPT_flag_iff {uPt1 : Nat → Pte} {pages : List Nat}
    {uPt2 : Nat → Pte} {pool : List Nat} {mapped : Nat} :
    (copyUPT uPt1 pages uPt2 pool mapped).1 = true ↔
      (validAmong uPt1 pages).length ≤ pool.length ∧
        0 ∉ pool.take (validAmong uPt1 pages).length := by
  induction pages generalizing uPt2 pool mapped with
  | nil =>
      apply iff_of_true
      · rfl
      · simp [validAmong]
  | cons i pages ih =>
      rw [copyUPT]
      cases hvalid : (uPt1 i).valid with
      | false =>
          have hpages : validAmong uPt1 (i :: pages) = validAmong uPt1 pages :=
            List.filter_cons_of_neg (by simp [hvalid])
          rw [if_neg Bool.false_ne_true, hpages]
          exact ih
      | true =>
          have hpages : validAmong uPt1 (i :: pages) =
              i :: validAmong uPt1 pages := List.filter_cons_of_pos hvalid
          rw [if_pos rfl, hpages, List.length_cons]
          cases pool with
          | nil =>
              apply iff_of_false
              · exact Bool.false_ne_true
              · simp
          | cons pfn pool =>
              rw [enough_cons]
              by_cases hzero : pfn = 0
              · simp [allocatePFN, hzero]
              · simp only [allocatePFN, if_neg hzero, ih]
                simp [hzero]

/-! ## The call -/

/-- The state that `KernelFork` goes on with: the child has been counted and the
frames of its kernel stack are gone from the pool. -/
structure Counted (s t : Kernel) : Prop where
  active : t.activePCB = s.activePCB
  kPt : t.kPt = s.kPt
  pool : t.pfnList = s.pfnList.drop kernelStackSize
  table : t.pcb.userPageTable s.activePCB = s.pcb.userPageTable s.activePCB
  numChildren :
    t.pcb.numChildren s.activePCB = s.pcb.numChildren s.activePCB + 1

theorem forkInit_counted {child : PcbPtr} {forked : Kernel} (hpid : pid ≠ 0)
    (hactive : s.activePCB ≠ s.npcb)
    (h : s.forkInit pid = some (child, forked)) :
    s.Counted (forked.copyIndices child s.activePCB) := by
  obtain ⟨hkPt, hpool, htable⟩ := initProcess_memory hpid h
  obtain ⟨hkPt', hpool', htable'⟩ :=
    copyIndices_memory (s := forked) child s.activePCB
  rw [hkPt] at hkPt'
  rw [hpool] at hpool'
  have hparent := (congrFun htable' s.activePCB).trans
    (congrFun htable s.activePCB)
  rw [upd_other hactive] at hparent
  unfold forkInit initProcess at h
  simp only at h
  split at h
  · cases h
  · cases h
    constructor
    · rfl
    · exact hkPt'
    · exact hpool'
    · exact hparent
    · have hcount : upd (upd s.pcb.numChildren s.npcb 0) s.activePCB
          (upd s.pcb.numChildren s.npcb 0 s.activePCB + 1) s.activePCB =
            s.pcb.numChildren s.activePCB + 1 := by
        rw [upd_same, upd_other hactive]
      exact hcount

theorem forkInit_isSome_iff (hpid : pid ≠ 0) :
    (s.forkInit pid).isSome = true ↔
      kernelStackSize ≤ s.pfnList.length ∧
        0 ∉ s.pfnList.take kernelStackSize := by
  have hstack := @allocKernelStack_isSome_iff (List.range kernelStackSize)
    (s.pcb.kernelStackPt s.npcb) s.pfnList
  rw [List.length_range] at hstack
  rw [← hstack]
  unfold forkInit initProcess
  simp only [if_pos hpid]
  rcases halloc : allocKernelStack (List.range kernelStackSize)
    (s.pcb.kernelStackPt s.npcb) s.pfnList with _ | ⟨stack, pool⟩
  · rfl
  · rfl

/-- The child's pid is no error code. -/
theorem forkReady_not_failed (child : PcbPtr) :
    ¬ (s.forkReady child).Failed s.activePCB := by
  have hactive : ((s.queueAdd (some .readyQ) child).kcCopy child
      .kernelFork).activePCB = s.activePCB := by
    unfold kcCopy
    split
    · rfl
    · rfl
  intro hfailed
  unfold forkReady at hfailed
  simp only at hfailed
  split at hfailed
  · rename_i hundefined
    have hmode := hfailed.1
    rw [hundefined] at hmode
    cases hmode
  · rw [← hactive, ret_failed] at hfailed
    unfold Rc.error at hfailed
    omega

/-- A copy that stops early returns `ERROR`. -/
theorem forkCopy_stops {child parent : PcbPtr} {reserved : Nat}
    (h : (copyUPT (s.pcb.userPageTable parent) (List.range userPtSize)
      (s.pcb.userPageTable child) s.pfnList (s.kPt reserved).pfn).1 = false) :
    (s.forkCopy child parent reserved).Failed s.activePCB ∧
      (s.forkCopy child parent reserved).pcb.numChildren =
        s.pcb.numChildren := by
  unfold forkCopy
  split
  · constructor
    · exact (ret_failed Rc.error).2 rfl
    · rfl
  · rename_i hcopy
    rw [hcopy] at h
    cases h

theorem forkCopy_completes {child parent : PcbPtr} {reserved : Nat}
    (h : (copyUPT (s.pcb.userPageTable parent) (List.range userPtSize)
      (s.pcb.userPageTable child) s.pfnList (s.kPt reserved).pfn).1 = true) :
    ¬ (s.forkCopy child parent reserved).Failed s.activePCB := by
  unfold forkCopy
  split
  · rename_i hcopy
    rw [hcopy] at h
    cases h
  · exact forkReady_not_failed child

theorem kernelFork_none (h : s.forkInit pid = none) :
    s.kernelFork pid = s.toUndefined := by
  unfold forkInit at h
  unfold kernelFork
  rw [h]

theorem kernelFork_noPage {child : PcbPtr} {forked : Kernel}
    (h : s.forkInit pid = some (child, forked))
    (hreserved : reservedKernelIndex
      (forked.copyIndices child s.activePCB).kPt = none) :
    s.kernelFork pid =
      (forked.copyIndices child s.activePCB).ret Rc.error := by
  unfold forkInit at h
  unfold kernelFork
  simp only [h, hreserved]

theorem kernelFork_copies {child : PcbPtr} {forked : Kernel} {reserved : Nat}
    (h : s.forkInit pid = some (child, forked))
    (hreserved : reservedKernelIndex
      (forked.copyIndices child s.activePCB).kPt = some reserved) :
    s.kernelFork pid = (forked.copyIndices child s.activePCB).forkCopy child
      s.activePCB reserved := by
  unfold forkInit at h
  unfold kernelFork
  simp only [h, hreserved]

/-- With enough frames the call goes through. -/
theorem kernelFork_succeeds (hpid : pid ≠ 0) (hactive : s.activePCB ≠ s.npcb)
    (h : s.ForkEnough) : (s.forkInit pid).isSome = true ∧
      ¬ (s.kernelFork pid).Failed s.activePCB := by
  obtain ⟨hpage, henough⟩ := h
  obtain ⟨hstack, hpages⟩ := enough_add.1 henough
  have hsome := (forkInit_isSome_iff hpid).2 hstack
  refine ⟨hsome, ?_⟩
  obtain ⟨⟨child, forked⟩, hinit⟩ := Option.isSome_iff_exists.1 hsome
  obtain ⟨reserved, hreserved⟩ := Option.isSome_iff_exists.1 hpage
  have hcounted := forkInit_counted hpid hactive hinit
  rw [← hcounted.kPt] at hreserved
  rw [kernelFork_copies hinit hreserved, ← hcounted.active]
  apply forkCopy_completes
  rw [copyUPT_flag_iff, hcounted.active, hcounted.table, hcounted.pool]
  exact hpages

/-- With fewer frames the call returns `ERROR` with the child counted, or does
not return. -/
theorem kernelFork_fails (hpid : pid ≠ 0) (hactive : s.activePCB ≠ s.npcb)
    (h : ¬ s.ForkEnough) :
    (s.forkInit pid = none ∧ ¬ (s.kernelFork pid).Failed s.activePCB) ∨
      (s.kernelFork pid).Failed s.activePCB ∧
        (s.kernelFork pid).pcb.numChildren s.activePCB =
          s.pcb.numChildren s.activePCB + 1 := by
  cases hinit : s.forkInit pid with
  | none =>
      left
      refine ⟨rfl, ?_⟩
      rw [kernelFork_none hinit]
      rintro ⟨hmode, -⟩
      cases hmode
  | some r =>
      obtain ⟨child, forked⟩ := r
      right
      have hcounted := forkInit_counted hpid hactive hinit
      have hcount := hcounted.numChildren
      rcases hreserved : reservedKernelIndex
        (forked.copyIndices child s.activePCB).kPt with _ | reserved
      · rw [kernelFork_noPage hinit hreserved]
        constructor
        · rw [← hcounted.active]
          exact (ret_failed Rc.error).2 rfl
        · exact hcount
      · rw [kernelFork_copies hinit hreserved]
        have hstops : (copyUPT ((forked.copyIndices child
            s.activePCB).pcb.userPageTable s.activePCB) (List.range userPtSize)
            ((forked.copyIndices child s.activePCB).pcb.userPageTable child)
            (forked.copyIndices child s.activePCB).pfnList
            ((forked.copyIndices child s.activePCB).kPt reserved).pfn).1 =
              false := by
          rw [← Bool.not_eq_true, copyUPT_flag_iff, hcounted.table,
            hcounted.pool]
          intro hpages
          apply h
          rw [hcounted.kPt] at hreserved
          refine ⟨?_, enough_add.2 ⟨?_, hpages⟩⟩
          · rw [hreserved]
            rfl
          · apply (forkInit_isSome_iff hpid).1
            rw [hinit]
            rfl
        obtain ⟨hfailed, hsame⟩ := forkCopy_stops hstops
        rw [hcounted.active] at hfailed
        rw [hsame]
        exact ⟨hfailed, hcount⟩

/-- A failing call changes nothing, and is reported, exactly when there are a
page and frames enough for the call not to fail. -/
theorem forkFailsCleanly_iff {guard : Kernel → Label → Prop} {s : Kernel}
    {ctx : UserContext} {pid : Nat} (h : Reachable guard s)
    (henabled : (Label.trap ctx (.kernel (.fork pid))).Enabled s) :
    (s.enter ctx).ForkFailsCleanly pid ↔ s.ForkEnough := by
  obtain ⟨huser, -, hfresh⟩ := henabled
  have hcensus := h.census (.inl huser)
  have hactive : (s.enter ctx).activePCB ≠ (s.enter ctx).npcb :=
    Nat.ne_of_lt hcensus.active
  have hpid : pid ≠ 0 := by
    rintro rfl
    exact hfresh 0 rfl hcensus.zero_used
  have hsame : (s.enter ctx).ForkEnough ↔ s.ForkEnough := Iff.rfl
  rw [← hsame]
  constructor
  · intro hclean
    by_contra hshort
    rcases kernelFork_fails hpid hactive hshort with
      ⟨hinit, hfailed⟩ | ⟨hfailed, hcount⟩
    · exact hfailed (hclean.reported hinit)
    · have hundone := (hclean.undone hfailed).numChildren
      omega
  · intro henough
    obtain ⟨hsome, hfailed⟩ := kernelFork_succeeds hpid hactive henough
    constructor
    · intro hfails
      exact absurd hfails hfailed
    · intro hinit
      rw [hinit] at hsome
      cases hsome

end Kernel

/-! The small program forks with frames enough, and with four frames left: two
for the kernel stack, and two for its three pages. -/

theorem forkFailsCleanly_iff_running :
    (runningProgram.enter ⟨0, 0⟩).ForkFailsCleanly 2 ↔
      runningProgram.ForkEnough := by
  have hreachable : Reachable (fun _ _ => True) runningProgram := by
    apply reachable_small 20 tick
    · decide +kernel
    · decide +kernel
  apply forkFailsCleanly_iff hreachable
  decide +kernel

/-- The small machine with four frames left. -/
def fourFrames : Kernel := (Boot.small 12).kernelStart.run tick

theorem fourFrames_reachable : Reachable (fun _ _ => True) fourFrames := by
  apply reachable_small 12 tick
  · decide +kernel
  · decide +kernel

/-- The failed call has lost the frames, left the Region 0 page mapped and
counted the child. -/
theorem failed_fork_changes_state :
    Reachable (fun _ _ => True) fourFrames ∧
      (Label.trap ⟨0, 0⟩ (.kernel (.fork 2))).Enabled fourFrames ∧
      ¬ (fourFrames.enter ⟨0, 0⟩).ForkFailsCleanly 2 := by
  refine ⟨fourFrames_reachable, by decide +kernel, ?_⟩
  intro hclean
  have hfailed : ((fourFrames.enter ⟨0, 0⟩).kernelFork 2).Failed
      (fourFrames.enter ⟨0, 0⟩).activePCB := by
    decide +kernel
  have hlength := (hclean.undone hfailed).frames.length_eq
  have hlost : ((fourFrames.enter ⟨0, 0⟩).kernelFork 2).pfnList.length ≠
      (fourFrames.enter ⟨0, 0⟩).pfnList.length := by
    decide +kernel
  exact hlost hlength

end Yalnix
