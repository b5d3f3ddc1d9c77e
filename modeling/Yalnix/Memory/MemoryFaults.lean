import Yalnix.Memory.UserBreak

/-!
# Memory traps

When the handler is done, the page of the faulting address should be mapped or
the process terminated.  The handler reads the page table at its target before
it compares the target with `0` and never compares it with the table size.  It
returns silently when there is no frame for the first page, and when the target
is a free page above the lowest stack page.
-/

namespace Yalnix

open Kernel

/-- The entries that the loop reads, one at the head of each round. -/
def growReads (first : Nat) : Nat → (Nat → Pte) → List Nat → List Nat
  | 0, _, _ => []
  | count + 1, table, pool =>
      if (table first).valid then first :: growReads (first + 1) count table pool
      else
        match allocatePFN pool with
        | (none, _) => [first]
        | (some pfn, pool) =>
            first :: growReads (first + 1) count
              (upd table first ⟨true, Prot.noXWR, pfn⟩) pool

theorem growReads_inside {first count i : Nat} {table : Nat → Pte}
    {pool : List Nat} (h : i ∈ growReads first count table pool) :
    first ≤ i ∧ i < first + count := by
  induction count generalizing first table pool with
  | zero => cases h
  | succ count ih =>
      rw [growReads] at h
      split at h
      · rw [List.mem_cons] at h
        rcases h with rfl | h
        · omega
        · have hin := ih h
          omega
      · split at h
        · rw [List.mem_singleton] at h
          omega
        · rw [List.mem_cons] at h
          rcases h with rfl | h
          · omega
          · have hin := ih h
            omega

/-- An address is in Region 1 exactly when the target of the handler is a
subscript of the page table. -/
theorem faultTarget_inside_iff {addr : Nat} (haddr : addr < 2 ^ 32) :
    0 ≤ faultTarget addr ∧ faultTarget addr < userPtSize ↔
      vmem1Base ≤ addr ∧ addr < vmem1Limit := by
  unfold faultTarget downToPage toInt32
  unfold pageSize vmem1BasePage vmem1Base vmem1Limit userPtSize
  omega

theorem faultTarget_eq {addr : Nat} (hbase : vmem1Base ≤ addr)
    (hlimit : addr < vmem1Limit) : faultTarget addr = addrPage addr := by
  unfold faultTarget addrPage downToPage toInt32
  unfold vmem1Base vmem1Limit at *
  unfold pageSize vmem1BasePage
  omega

namespace Kernel

variable {s : Kernel} {addr : Nat} {beyondValid : Bool}

theorem kernelExit_terminated (code : Int) :
    (s.kernelExit code).history.terminated s.activePCB = true := by
  have hcore : (s.kernelExit code).core.history.terminated =
      (s.core.exited code).history.terminated := by
    rw [kernelExit_core]
  have hactive : s.core.activePCB = s.activePCB := rfl
  unfold exited at hcore
  rw [swapped_history, hactive] at hcore
  exact (congrFun hcore s.activePCB).trans (upd_same _ _ _)

/-- The subscripts at which the handler reads the page table, in order. -/
def trapMemoryReads (s : Kernel) (addr : Nat) (beyondValid : Bool) : List Int :=
  let target := faultTarget addr
  let stackIndex := s.pcb.userStackPtIndex s.activePCB
  target ::
    if target < 0 ∨ s.faultValid target beyondValid then []
    else
      (growReads target.toNat (stackIndex - target).toNat
        (s.pcb.userPageTable s.activePCB) s.pfnList).map fun i : Nat => (i : Int)

/-- After the handler the page is mapped or the process terminated, and all
reads were inside the table. -/
structure FaultResolved (s : Kernel) (addr : Nat) (beyondValid : Bool) :
    Prop where
  resolved :
    ((s.trapMemoryHandler addr beyondValid).space s.activePCB).Maps
        (addrPage addr) ∨
      (s.trapMemoryHandler addr beyondValid).history.terminated s.activePCB =
        true
  reads : ∀ i ∈ s.trapMemoryReads addr beyondValid, 0 ≤ i ∧ i < userPtSize

/-- The address is in Region 1, and its page is mapped already, or it lies
below the stack and there is a frame for it. -/
structure FaultServable (s : Kernel) (addr : Nat) : Prop where
  base : vmem1Base ≤ addr
  limit : addr < vmem1Limit
  page : (s.space s.activePCB).Maps (addrPage addr) ∨
    addrPage addr < (s.space s.activePCB).stackIndex ∧
      (s.space s.activePCB).stackIndex ≤ userPtSize ∧
      ∃ pfn rest, s.pfnList = pfn :: rest ∧ pfn ≠ 0

theorem allocatePFN_ne_none {pool : List Nat} :
    (allocatePFN pool).1 ≠ none ↔ ∃ pfn rest, pool = pfn :: rest ∧ pfn ≠ 0 := by
  cases pool with
  | nil => simp [allocatePFN]
  | cons pfn rest =>
      by_cases hzero : pfn = 0
      · simp [allocatePFN, hzero]
      · simp [allocatePFN, hzero]

/-- A fault on a page that is mapped already ends the process. -/
theorem trapMemoryHandler_mapped
    (hin : 0 ≤ faultTarget addr ∧ faultTarget addr < userPtSize)
    (hvalid : ((s.space s.activePCB).table (faultTarget addr).toNat).valid =
      true) :
    s.trapMemoryHandler addr beyondValid = s.kernelExit Rc.error ∧
      s.trapMemoryReads addr beyondValid = [faultTarget addr] := by
  have hfatal : faultTarget addr < 0 ∨
      s.faultValid (faultTarget addr) beyondValid = true := by
    right
    unfold faultValid
    rw [if_neg (Int.not_le.2 hin.2)]
    exact hvalid
  constructor
  · unfold trapMemoryHandler
    simp only
    rw [if_pos hfatal]
  · unfold trapMemoryReads
    simp only
    rw [if_pos hfatal]

/-- What the handler does on a free page of the table. -/
theorem trapMemoryHandler_free
    (hin : 0 ≤ faultTarget addr ∧ faultTarget addr < userPtSize)
    (hinvalid : ((s.space s.activePCB).table (faultTarget addr).toNat).valid =
      false) :
    ¬ (faultTarget addr < 0 ∨
      s.faultValid (faultTarget addr) beyondValid = true) := by
  rintro (hneg | hfatal)
  · omega
  · unfold faultValid at hfatal
    rw [if_neg (Int.not_le.2 hin.2)] at hfatal
    exact absurd (hfatal.symm.trans hinvalid) nofun

/-- What the handler leaves of a free page of the table. -/
theorem trapMemoryHandler_grown {table : Nat → Pte} {rest : List Nat}
    {ok : Bool} (hin : 0 ≤ faultTarget addr ∧ faultTarget addr < userPtSize)
    (hinvalid : ((s.space s.activePCB).table (faultTarget addr).toNat).valid =
      false)
    (htable : faultTarget addr < (s.space s.activePCB).stackIndex →
      (s.space s.activePCB).stackIndex ≤ userPtSize)
    (hgrown : growPages (faultTarget addr).toNat
      ((s.space s.activePCB).stackIndex - faultTarget addr).toNat
      (s.space s.activePCB).table s.pfnList = (ok, table, rest)) :
    s.trapMemoryHandler addr beyondValid =
      (s.remapped table rest).toUser := by
  have hloop : growPages (faultTarget addr).toNat
      (s.pcb.userStackPtIndex s.activePCB - faultTarget addr).toNat
      (s.pcb.userPageTable s.activePCB) s.pfnList = (ok, table, rest) := hgrown
  have hstack : ¬ ((userPtSize : Int) < s.pcb.userStackPtIndex s.activePCB ∧
      faultTarget addr < s.pcb.userStackPtIndex s.activePCB) := by
    rintro ⟨hbeyond, hbelow⟩
    have hle := htable hbelow
    exact absurd hbeyond (Int.not_lt.2 hle)
  unfold trapMemoryHandler
  simp only
  rw [if_neg (trapMemoryHandler_free hin hinvalid), if_neg hstack, hloop]
  rfl

/-- With a stack index above the table the loop leaves it. -/
theorem trapMemoryHandler_leaves
    (hin : 0 ≤ faultTarget addr ∧ faultTarget addr < userPtSize)
    (hinvalid : ((s.space s.activePCB).table (faultTarget addr).toNat).valid =
      false)
    (htable : userPtSize < (s.space s.activePCB).stackIndex) :
    s.trapMemoryHandler addr beyondValid = s.toUndefined := by
  have hstack : (userPtSize : Int) < s.pcb.userStackPtIndex s.activePCB ∧
      faultTarget addr < s.pcb.userStackPtIndex s.activePCB :=
    ⟨htable, Int.lt_trans hin.2 htable⟩
  unfold trapMemoryHandler
  simp only
  rw [if_neg (trapMemoryHandler_free hin hinvalid), if_pos hstack]

/-- On a free page of the table nothing is terminated, and the page is mapped
exactly when it lies below the stack and there is a frame for it. -/
theorem trapMemoryHandler_resolves
    (hin : 0 ≤ faultTarget addr ∧ faultTarget addr < userPtSize)
    (hinvalid : ((s.space s.activePCB).table (faultTarget addr).toNat).valid =
      false) :
    (s.trapMemoryHandler addr beyondValid).history = s.history ∧
      (((s.trapMemoryHandler addr beyondValid).space s.activePCB).Maps
          (faultTarget addr) ↔
        faultTarget addr < (s.space s.activePCB).stackIndex ∧
          (s.space s.activePCB).stackIndex ≤ userPtSize ∧
          (allocatePFN s.pfnList).1 ≠ none) := by
  by_cases htable : userPtSize < (s.space s.activePCB).stackIndex
  · rw [trapMemoryHandler_leaves hin hinvalid htable]
    refine ⟨rfl, iff_of_false ?_ ?_⟩
    · rintro ⟨-, -, hvalid⟩
      exact absurd (hvalid.symm.trans hinvalid) nofun
    · rintro ⟨-, hle, -⟩
      omega
  · rcases hgrown : growPages (faultTarget addr).toNat
      ((s.space s.activePCB).stackIndex - faultTarget addr).toNat
      (s.space s.activePCB).table s.pfnList with ⟨ok, table, rest⟩
    rw [trapMemoryHandler_grown hin hinvalid (by omega) hgrown]
    refine ⟨rfl, ?_⟩
    have hspace : ((s.remapped table rest).toUser).space s.activePCB =
        { s.space s.activePCB with table := table } :=
      written_space table rest
    rw [hspace]
    by_cases hstack : faultTarget addr < (s.space s.activePCB).stackIndex
    · have hfirst := growPages_first hgrown (by omega) hinvalid
      rw [← hfirst]
      constructor
      · rintro ⟨-, -, hvalid⟩
        exact ⟨hstack, by omega, hvalid⟩
      · rintro ⟨-, -, hvalid⟩
        exact ⟨hin.1, hin.2, hvalid⟩
    · have hsame : table = (s.space s.activePCB).table := by
        rw [show ((s.space s.activePCB).stackIndex -
          faultTarget addr).toNat = 0 by omega] at hgrown
        cases hgrown
        rfl
      apply iff_of_false
      · rintro ⟨-, -, hvalid⟩
        rw [hsame] at hvalid
        exact absurd (hvalid.symm.trans hinvalid) nofun
      · rintro ⟨hbelow, -⟩
        exact hstack hbelow

theorem trapMemoryReads_inside
    (hin : 0 ≤ faultTarget addr ∧ faultTarget addr < userPtSize)
    (htable : (s.space s.activePCB).stackIndex ≤ userPtSize) :
    ∀ i ∈ s.trapMemoryReads addr beyondValid, 0 ≤ i ∧ i < userPtSize := by
  have hstack : s.pcb.userStackPtIndex s.activePCB ≤ userPtSize := htable
  intro i hi
  unfold trapMemoryReads at hi
  simp only [List.mem_cons] at hi
  rcases hi with hi | hi
  · rw [hi]
    exact hin
  · split at hi
    · cases hi
    · obtain ⟨j, hj, rfl⟩ := List.mem_map.1 hi
      have hloop := growReads_inside hj
      omega

/--
A fault is resolved exactly when the address is in Region 1 and its page is
mapped already, or lies below the stack and there is a frame for it.
-/
theorem faultResolved_iff (haddr : addr < 2 ^ 32)
    (hrunning : s.history.terminated s.activePCB = false) :
    s.FaultResolved addr beyondValid ↔ s.FaultServable addr := by
  have htarget : faultTarget addr ∈ s.trapMemoryReads addr beyondValid :=
    List.mem_cons_self
  by_cases hin : 0 ≤ faultTarget addr ∧ faultTarget addr < userPtSize
  · obtain ⟨hbase, hlimit⟩ := (faultTarget_inside_iff haddr).1 hin
    have hpage := faultTarget_eq hbase hlimit
    cases hvalid : ((s.space s.activePCB).table (faultTarget addr).toNat).valid
      with
    | true =>
        obtain ⟨hexit, hreads⟩ := trapMemoryHandler_mapped
          hin hvalid
        apply iff_of_true
        · constructor
          · right
            rw [hexit]
            exact kernelExit_terminated Rc.error
          · rw [hreads]
            intro i hi
            rw [List.mem_singleton] at hi
            rw [hi]
            exact hin
        · refine ⟨hbase, hlimit, .inl ?_⟩
          rw [← hpage]
          exact ⟨hin.1, hin.2, hvalid⟩
    | false =>
        obtain ⟨hhistory, hmaps⟩ := trapMemoryHandler_resolves
          hin hvalid
        rw [allocatePFN_ne_none] at hmaps
        constructor
        · rintro ⟨hmapped | hdead, -⟩
          · rw [← hpage] at hmapped
            refine ⟨hbase, hlimit, .inr ?_⟩
            rw [← hpage]
            exact hmaps.1 hmapped
          · rw [hhistory, hrunning] at hdead
            cases hdead
        · rintro ⟨-, -, hmapped | hfree⟩
          · rw [← hpage] at hmapped
            exact absurd (hmapped.2.2.symm.trans hvalid) nofun
          · rw [← hpage] at hfree
            constructor
            · left
              rw [← hpage]
              exact hmaps.2 hfree
            · exact trapMemoryReads_inside hin hfree.2.1
  · apply iff_of_false
    · rintro ⟨-, hreads⟩
      exact hin (hreads _ htarget)
    · rintro ⟨hbase, hlimit, -⟩
      exact hin ((faultTarget_inside_iff haddr).2 ⟨hbase, hlimit⟩)

end Kernel

/-! The small program pushes below its stack: with frames left the page is
mapped, with none left it faults there again. -/

theorem faultResolved_iff_pushed :
    runningProgram.FaultResolved (pageAddr 126) false ↔
      runningProgram.FaultServable (pageAddr 126) := by
  apply faultResolved_iff
  · decide
  · decide +kernel

/-- The small machine with no frame left. -/
def noFrameLeft : Kernel := (Boot.small 8).kernelStart.run tick

theorem noFrameLeft_reachable : Reachable (fun _ _ => True) noFrameLeft := by
  apply reachable_small 8 tick
  · decide +kernel
  · decide +kernel

theorem fault_without_frame_repeats :
    Reachable (fun _ _ => True) noFrameLeft ∧
      ¬ noFrameLeft.FaultResolved (pageAddr 126) false ∧
      (noFrameLeft.trapMemoryHandler (pageAddr 126) false).mode = .user := by
  have hafter : (((noFrameLeft.trapMemoryHandler (pageAddr 126) false).space
        noFrameLeft.activePCB).table (addrPage (pageAddr 126)).toNat).valid =
          false ∧
      (noFrameLeft.trapMemoryHandler (pageAddr 126)
        false).history.terminated noFrameLeft.activePCB = false ∧
      (noFrameLeft.trapMemoryHandler (pageAddr 126) false).mode = .user := by
    decide +kernel
  obtain ⟨hinvalid, hlives, hmode⟩ := hafter
  refine ⟨noFrameLeft_reachable, ?_, hmode⟩
  rintro ⟨⟨-, -, hmapped⟩ | hdead, -⟩
  · rw [hinvalid] at hmapped
    cases hmapped
  · rw [hlives] at hdead
    cases hdead

end Yalnix
