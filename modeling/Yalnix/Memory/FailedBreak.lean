import Yalnix.Memory.UserBreak

/-!
# Failing Brk calls

A call that is refused by its checks changes nothing.  A call that runs out of
frames in its second loop returns `ERROR` with the pages mapped so far in the
table and their frames gone from the pool; the break has not moved, so the next
call finds those pages in its way.
-/

namespace Yalnix

open Kernel

namespace Kernel

variable {s : Kernel} {addr : Nat}

/-- `Brk` has returned `ERROR`. -/
def Failed (s : Kernel) (p : PcbPtr) : Prop :=
  s.mode = .user ∧ s.reg0 p = Rc.error

instance Failed.decidable (s : Kernel) (p : PcbPtr) :
    Decidable (s.Failed p) :=
  inferInstanceAs (Decidable (_ ∧ _))

theorem ret_failed (result : Int) :
    (s.ret result).Failed s.activePCB ↔ result = Rc.error := by
  have hreg : (s.ret result).reg0 s.activePCB = result := upd_same _ _ _
  constructor
  · intro h
    exact hreg.symm.trans h.2
  · intro h
    exact ⟨rfl, hreg.trans h⟩

/-- If the call fails, the space of the process and the pool are as before, and
a smaller request succeeds afterwards if it would have succeeded before. -/
def BrkFailsCleanly (s : Kernel) (addr : Nat) : Prop :=
  (s.kernelBrk addr).Failed s.activePCB →
    (s.kernelBrk addr).space s.activePCB = s.space s.activePCB ∧
      (s.kernelBrk addr).pfnList = s.pfnList ∧
      ∀ smaller, brkTarget smaller ≤ brkTarget addr →
        (s.kernelBrk smaller).Succeeded s.activePCB →
          ((s.kernelBrk addr).kernelBrk smaller).Succeeded s.activePCB

/-- The call asks for free pages, and the pool has frames but not enough of
them on its top. -/
def BrkRunsOut (s : Kernel) (addr : Nat) : Prop :=
  s.BrkGrows addr ∧ s.pfnList ≠ [] ∧
    ¬ (s.brkCount addr ≤ s.pfnList.length ∧
      0 ∉ s.pfnList.take (s.brkCount addr))

/-- Nothing that `KernelBrk` reads has been written by an answer. -/
theorem ret_kernelBrk_succeeded (result : Int) :
    ((s.ret result).kernelBrk addr).Succeeded s.activePCB ↔
      (s.kernelBrk addr).Succeeded s.activePCB := by
  have hactive : (s.ret result).activePCB = s.activePCB := rfl
  have hpcb : (s.ret result).pcb = s.pcb := rfl
  have hpool : (s.ret result).pfnList = s.pfnList := rfl
  have hnot : ∀ r : Kernel, ¬ r.toUndefined.Succeeded s.activePCB := by
    intro r h
    cases h.1
  unfold kernelBrk
  simp only [hactive, hpcb, hpool]
  split_ifs
  all_goals first
    | exact iff_of_false (hnot _) (hnot _)
    | exact (ret_succeeded rfl).trans (ret_succeeded rfl).symm

theorem brkGrown_flag (h : s.BrkGrows addr) :
    (s.brkGrown addr).1 = true ↔
      s.brkCount addr ≤ s.pfnList.length ∧
        0 ∉ s.pfnList.take (s.brkCount addr) := by
  obtain ⟨-, hheap, hbase, -, hfree⟩ := h
  apply growPages_complete
  intro i hge hlt
  unfold brkCount at hlt
  exact hfree i (by omega) (by omega)

/-- A growing call whose loop stops early. -/
theorem kernelBrk_stops {table : Nat → Pte} {rest : List Nat}
    (h : s.BrkGrows addr) (hstops : s.brkGrown addr = (false, table, rest)) :
    s.kernelBrk addr = (s.remapped table rest).ret Rc.error := by
  obtain ⟨⟨hnull, hdata, hstack⟩, hheap, hbase, htable, hfree⟩ := h
  have hbelow : s.pcb.userDataPtIndex s.activePCB < brkTarget addr := hdata
  have habove : brkTarget addr < s.pcb.userStackPtIndex s.activePCB := hstack
  have hgrows : s.pcb.userHeapPtIndex s.activePCB < brkTarget addr := hheap
  have hpos : 0 ≤ s.pcb.userHeapPtIndex s.activePCB := hbase
  have hfirst : ¬ ((List.range (brkTarget addr -
      s.pcb.userHeapPtIndex s.activePCB).toNat).any fun i =>
        (s.pcb.userPageTable s.activePCB
          ((s.pcb.userHeapPtIndex s.activePCB).toNat + i)).valid) = true := by
    rw [List.any_eq_true]
    rintro ⟨i, hi, hvalid⟩
    rw [List.mem_range] at hi
    have hindex : (s.space s.activePCB).heapIndex =
        s.pcb.userHeapPtIndex s.activePCB := rfl
    have hinvalid := hfree ((s.pcb.userHeapPtIndex s.activePCB).toNat + i)
      (by omega) (by omega)
    exact absurd (hvalid.symm.trans hinvalid) nofun
  have hloop : growPages (s.pcb.userHeapPtIndex s.activePCB).toNat
      (brkTarget addr - s.pcb.userHeapPtIndex s.activePCB).toNat
      (s.pcb.userPageTable s.activePCB) s.pfnList = (false, table, rest) :=
    hstops
  unfold kernelBrk
  simp only
  rw [if_neg hnull, if_neg (by omega), if_pos hgrows, if_neg (by omega),
    if_neg hfirst, hloop, if_neg Bool.false_ne_true]
  rfl

theorem brkGrown_pops (h : s.BrkGrows addr) (hpool : s.pfnList ≠ []) :
    (s.brkGrown addr).2.2.length < s.pfnList.length := by
  obtain ⟨-, hheap, hbase, htable, hfree⟩ := h
  have hfirst := hfree (s.space s.activePCB).heapIndex.toNat (by omega)
    (by omega)
  have hcount : s.brkCount addr = s.brkCount addr - 1 + 1 := by
    unfold brkCount
    omega
  unfold brkGrown
  rw [hcount, growPages, hfirst, if_neg Bool.false_ne_true]
  cases hlist : s.pfnList with
  | nil => exact absurd hlist hpool
  | cons pfn rest =>
      by_cases hzero : pfn = 0
      · simp [allocatePFN, hzero]
      · simp only [allocatePFN, if_neg hzero, List.length_cons]
        exact Nat.lt_succ_of_le growPages_length

/-- With an empty pool the loop stops at its first page. -/
theorem brkGrown_empty {ok : Bool} {table : Nat → Pte} {rest : List Nat}
    (hpool : s.pfnList = []) (hgrown : s.brkGrown addr = (ok, table, rest)) :
    table = (s.space s.activePCB).table ∧ rest = s.pfnList := by
  unfold brkGrown at hgrown
  rw [hpool] at hgrown ⊢
  constructor
  · exact growPages_none hgrown rfl
  · have hlength : rest.length ≤ 0 := by
      have hpops : (growPages (s.space s.activePCB).heapIndex.toNat
          (s.brkCount addr) (s.space s.activePCB).table []).2.2.length ≤ 0 :=
        growPages_length
      rw [hgrown] at hpops
      exact hpops
    exact List.eq_nil_of_length_eq_zero (Nat.le_zero.1 hlength)

/-- Writing back what has been read changes nothing. -/
theorem remapped_same :
    s.remapped (s.space s.activePCB).table s.pfnList = s := by
  unfold remapped setPfnList setUserPageTable setPcb
  have htable : upd s.pcb.userPageTable s.activePCB
      (s.space s.activePCB).table = s.pcb.userPageTable :=
    Function.update_eq_self _ _
  rw [htable]

theorem BrkOutcome.failsCleanly {r : Kernel} (h : BrkOutcome s addr r)
    (hruns : ¬ s.BrkRunsOut addr) (hfailed : r.Failed s.activePCB) :
    r = s.ret Rc.error := by
  cases h with
  | refused => rfl
  | undefined => cases hfailed.1
  | @runsOut table rest hgrows hgrown =>
      have hflag := brkGrown_flag hgrows
      rw [hgrown] at hflag
      have hpool : s.pfnList = [] := by
        by_contra hne
        apply hruns
        refine ⟨hgrows, hne, ?_⟩
        intro henough
        cases hflag.2 henough
      obtain ⟨htable, hrest⟩ := brkGrown_empty hpool hgrown
      rw [htable, hrest, remapped_same]
  | grown =>
      have hzero := (ret_failed 0).1 hfailed
      cases hzero
  | shrunk =>
      have hzero := (ret_failed 0).1 hfailed
      cases hzero

/--
A failing call changes nothing exactly when it is not one that runs out of
frames half way through.
-/
theorem brkFailsCleanly_iff (s : Kernel) (addr : Nat) :
    s.BrkFailsCleanly addr ↔ ¬ s.BrkRunsOut addr := by
  constructor
  · rintro hclean ⟨hgrows, hpool, hshort⟩
    have hflag := brkGrown_flag hgrows
    have hpops := brkGrown_pops hgrows hpool
    rcases hgrown : s.brkGrown addr with ⟨_ | _, table, rest⟩
    · have hresult := kernelBrk_stops hgrows hgrown
      unfold BrkFailsCleanly at hclean
      rw [hresult] at hclean
      obtain ⟨-, hsame, -⟩ := hclean ((ret_failed Rc.error).2 rfl)
      rw [hgrown] at hpops
      have hlist : rest = s.pfnList := hsame
      rw [hlist] at hpops
      exact absurd hpops (Nat.lt_irrefl _)
    · rw [hgrown] at hflag
      exact hshort (hflag.1 rfl)
  · intro hruns hfailed
    have hresult := (kernelBrk_outcome s addr).failsCleanly hruns hfailed
    rw [hresult]
    refine ⟨rfl, rfl, ?_⟩
    intro smaller _ hok
    exact (ret_kernelBrk_succeeded Rc.error).2 hok

end Kernel

/-! The small program has used up all frames but one and asks for two. -/

/-- The small machine with one frame left. -/
def lastFrame : Kernel := (Boot.small 9).kernelStart.run tick

theorem lastFrame_reachable : Reachable (fun _ _ => True) lastFrame := by
  apply reachable_small 9 tick
  · decide +kernel
  · decide +kernel

/-- The call for two pages fails, the first of them is mapped and the pool is
empty; the call for one page, which would have succeeded, now fails as well. -/
theorem failed_brk_changes_table :
    Reachable (fun _ _ => True) lastFrame ∧
      ¬ lastFrame.BrkFailsCleanly (pageAddr 4) := by
  refine ⟨lastFrame_reachable, ?_⟩
  intro hclean
  have hfailed : (lastFrame.kernelBrk (pageAddr 4)).Failed
      lastFrame.activePCB := by
    decide +kernel
  obtain ⟨-, -, hsmaller⟩ := hclean hfailed
  have hbefore : (lastFrame.kernelBrk (pageAddr 3)).Succeeded
      lastFrame.activePCB := by
    decide +kernel
  have hafter : ¬ ((lastFrame.kernelBrk (pageAddr 4)).kernelBrk
      (pageAddr 3)).Succeeded lastFrame.activePCB := by
    decide +kernel
  exact hafter (hsmaller (pageAddr 3) (by decide) hbefore)

end Yalnix
