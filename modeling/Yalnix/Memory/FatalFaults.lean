import Yalnix.Memory.KernelStack

/-!
# Fatal faults and Exit

`TrapMathHandler` and `TrapIllegalHandler` end a process without the clean-up
that `KernelExit` does.
-/

namespace Yalnix

open Kernel

/-- From `s`, the states `r` and `e` have ended the active process alike. -/
structure EndsLike (s r e : Kernel) : Prop where
  ready : r.readyQ = e.readyQ
  blocked : r.blockedQ = e.blockedQ
  defunct : r.defunctQ = e.defunctQ
  pool : r.pfnList = e.pfnList
  parent : ∀ p, s.pcb.pid p = s.pcb.ppid s.activePCB →
    r.pcb.numChildren p = e.pcb.numChildren p ∧
      r.pcb.blockedCode p = e.pcb.blockedCode p
  children : ∀ c, s.pcb.ppid c = s.pcb.pid s.activePCB →
    r.pcb.ppid c = e.pcb.ppid c

theorem Memory.Quiet.pfnList {m m' : Memory} (h : m.Quiet m') :
    m'.pfnList = m.pfnList := by
  cases h with
  | keeps => rfl
  | parks => rfl
  | switches next =>
      unfold Memory.switch Memory.reload
      split
      · rfl
      · rfl

/-- Every valid page goes back to the pool. -/
theorem freeTable_length (table : Nat → Pte) (pages pool : List Nat) :
    (freeTable table pages pool).length =
      pool.length + (pages.filter fun i => (table i).valid).length := by
  induction pages generalizing pool with
  | nil => rfl
  | cons i pages ih =>
      rw [freeTable, ih]
      cases hvalid : (table i).valid with
      | false => simp [hvalid]
      | true =>
          simp [hvalid, deallocatePFN]
          omega

/-- `free_addr_space` returns at least the kernel stack. -/
theorem freeAddrSpace_length_lt {uPt kStack : Nat → Pte} (pool : List Nat)
    (hstack : ∀ i, i < kernelStackSize → (kStack i).valid = true) :
    pool.length < (freeAddrSpace uPt kStack pool).length := by
  have hzero : (kStack 0).valid = true := hstack 0 Nat.two_pos
  have hpages : 0 ∈ (List.range kernelStackSize).filter fun i =>
      (kStack i).valid :=
    List.mem_filter.2 ⟨List.mem_range.2 Nat.two_pos, hzero⟩
  have hpos := List.length_pos_of_mem hpages
  rw [freeAddrSpace, freeTable_length, freeTable_length]
  omega

theorem Memory.free_length_lt {m : Memory}
    (hstack : ∀ i, i < kernelStackSize →
      (m.kernelStackPt m.active i).valid = true) :
    m.pfnList.length < m.free.pfnList.length := by
  show m.pfnList.length < (freeAddrSpace (m.userPageTable m.active)
    (m.kernelStackPt m.active) m.pfnList).length
  exact freeAddrSpace_length_lt _ hstack

/-- A fatal fault never ends a process as `Exit(ERROR)` does: its frames do not
come back. -/
theorem fault_never_ends_like_exit {s : Kernel}
    (h : Reachable (fun _ _ => True) s) (huser : s.mode = .user)
    (hactive : s.activePCB ≠ s.idlePCB) (ctx : UserContext) {t : Trap}
    (ht : t = .math ∨ t = .illegal) :
    ¬ EndsLike s (s.take (.trap ctx t)) ((s.enter ctx).kernelExit Rc.error) := by
  intro hlike
  obtain ⟨D, hcensus, hmapped⟩ := Reachable.stacksMapped h (.inl huser)
  have hfault : (s.take (.trap ctx t)).pfnList = s.pfnList := by
    have hquiet : (s.enter ctx).memory.Quiet (s.take (.trap ctx t)).memory := by
      refine handle_quiet ?_
      rcases ht with rfl | rfl
      · rfl
      · rfl
    exact hquiet.pfnList
  have hexit := (kernelExit_quiet (s := s.enter ctx) Rc.error).pfnList
  have hlt : s.pfnList.length <
      (s.enter ctx).memory.free.pfnList.length :=
    Memory.free_length_lt (hmapped.valid _ (.inr (hcensus.running hactive)))
  have hpool : s.pfnList = (s.enter ctx).memory.free.pfnList :=
    hfault.symm.trans (hlike.pool.trans hexit)
  rw [← hpool] at hlt
  exact Nat.lt_irrefl _ hlt

/-- A parent waits for its child, which is about to divide by zero. -/
def faultingChild : Kernel :=
  (Boot.small 16).kernelStart.run
    (tick ++ [call (.fork 2), call (.wait true), .resume])

theorem faultingChild_reachable :
    Reachable (fun _ _ => True) faultingChild :=
  reachable_small 16 _ (by decide +kernel) (by decide +kernel)

theorem fault_never_ends_like_exit_child :
    faultingChild.mode = .user ∧ faultingChild.activePCB = 2 ∧
      ¬ EndsLike faultingChild (faultingChild.take (.trap ⟨0, 0⟩ .math))
        ((faultingChild.enter ⟨0, 0⟩).kernelExit Rc.error) :=
  ⟨by decide +kernel, by decide +kernel,
    fault_never_ends_like_exit faultingChild_reachable (by decide +kernel)
      (by decide +kernel) ⟨0, 0⟩ (.inl rfl)⟩

/-- `KernelExit` would wake the parent with `ERROR`; the fault leaves it asleep. -/
theorem fault_leaves_parent_asleep :
    ¬ ∀ s : Kernel, Reachable (fun _ _ => True) s → s.mode = .user →
      s.activePCB ≠ s.idlePCB →
      EndsLike s (s.take (.trap ⟨0, 0⟩ .math))
        ((s.enter ⟨0, 0⟩).kernelExit Rc.error) := by
  intro hall
  have hlike := hall faultingChild faultingChild_reachable (by decide +kernel)
    (by decide +kernel)
  have hasleep : (faultingChild.take (.trap ⟨0, 0⟩ .math)).blockedQ = [1] := by
    decide +kernel
  have hwoken :
      ((faultingChild.enter ⟨0, 0⟩).kernelExit Rc.error).blockedQ = [] := by
    decide +kernel
  exact absurd (hasleep.symm.trans (hlike.blocked.trans hwoken)) nofun

end Yalnix
