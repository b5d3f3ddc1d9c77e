import Yalnix.Memory.SingleOwner
import Yalnix.Process.Preemption

/-!
# Isolation

While a process waits, the others neither change its page table nor get hold of
a frame that it maps.
-/

namespace Yalnix

open Kernel Ledger

namespace Kernel

variable {s : Kernel} {p q : PcbPtr} {i : Nat}

/-- The frame of page `i` of `p` is not free, and nothing else maps it. -/
structure OwnPage (s : Kernel) (p : PcbPtr) (i : Nat) : Prop where
  notFree : (s.pcb.userPageTable p i).pfn ∉ s.pfnList
  sole : ∀ q < s.npcb, s.history.terminated q = false → ∀ j < userPtSize,
    (s.pcb.userPageTable q j).valid = true →
      (s.pcb.userPageTable q j).pfn = (s.pcb.userPageTable p i).pfn →
        q = p ∧ j = i
  noStack : ∀ q < s.npcb, s.history.terminated q = false →
    ∀ j < kernelStackSize,
      (s.pcb.kernelStackPt q j).pfn ≠ (s.pcb.userPageTable p i).pfn

theorem mem_ownedFrames {table : Nat → Pte} (hi : i < userPtSize)
    (hvalid : (table i).valid = true) : (table i).pfn ∈ ownedFrames table :=
  mem_held.2 ⟨i, List.mem_range.2 hi, Pte.frame_valid hvalid⟩

theorem share_eq (hgoes : s.history.terminated p = false) :
    s.share p = ownedFrames (s.pcb.userPageTable p) ++
      framesOf (s.pcb.kernelStackPt p) (List.range kernelStackSize) := by
  unfold share spaceFrames
  rw [hgoes]
  rfl

/-- A mapped page whose frame occurs once in the inventory. -/
theorem ownPage_of_once (hp : p < s.npcb)
    (hgoes : s.history.terminated p = false) (hi : i < userPtSize)
    (hvalid : (s.pcb.userPageTable p i).valid = true)
    (honce : s.frames.count (s.pcb.userPageTable p i).pfn ≤ 1) :
    s.OwnPage p i := by
  have howned := mem_ownedFrames hi hvalid
  have hshare : (s.pcb.userPageTable p i).pfn ∈ s.share p := by
    rw [share_eq hgoes]
    exact List.mem_append_left _ howned
  -- what is owned and what the stack has are parts of the same share
  have hstake : AtMost (fun _ => True) (s.share p ++ s.pfnList) s.frames :=
    .stake List.nodup_range (List.mem_range.2 hp)
  have hparts := Nat.le_trans (hstake _ trivial) honce
  rw [share_eq hgoes, List.count_append, List.count_append] at hparts
  have howner (q : PcbPtr) (hq : q < s.npcb)
      (hhas : (s.pcb.userPageTable p i).pfn ∈ s.share q) : q = p :=
    (sole_owner honce (List.mem_range.2 hp) hshare).2 (List.mem_range.2 hq) hhas
  refine ⟨(sole_owner (o := p) honce (List.mem_range.2 hp) hshare).1, ?_, ?_⟩
  · intro q hq hgoes' j hj hvalid' heq
    have hhas : (s.pcb.userPageTable p i).pfn ∈ s.share q := by
      rw [← heq, share_eq hgoes']
      exact List.mem_append_left _ (mem_ownedFrames hj hvalid')
    obtain rfl := howner q hq hhas
    have honce' : (ownedFrames (s.pcb.userPageTable q)).count
        (s.pcb.userPageTable q i).pfn ≤ 1 := by omega
    have hholds : (s.pcb.userPageTable q j).frame =
        some (s.pcb.userPageTable q i).pfn := by
      rw [← heq]
      exact Pte.frame_valid hvalid'
    exact ⟨rfl, sole_cell honce' (List.mem_range.2 hi) (Pte.frame_valid hvalid)
      (List.mem_range.2 hj) hholds⟩
  · intro q hq hgoes' j hj heq
    have hstack : (s.pcb.userPageTable p i).pfn ∈
        framesOf (s.pcb.kernelStackPt q) (List.range kernelStackSize) :=
      heq ▸ mem_framesOf (List.mem_range.2 hj)
    have hhas : (s.pcb.userPageTable p i).pfn ∈ s.share q := by
      rw [share_eq hgoes']
      exact List.mem_append_right _ hstack
    obtain rfl := howner q hq hhas
    have huser := List.count_pos_iff.2 howned
    have hkernel := List.count_pos_iff.2 hstack
    omega

end Kernel

/-- A process does not terminate while others run. -/
theorem Reachable.run_terminated {guard : Kernel → Label → Prop} {s : Kernel}
    (h : Reachable guard s) {labels : List Label} {p : PcbPtr}
    (hadmits : s.Admits guard labels) (hlive : (s.run labels).Live)
    (haway : s.Away p labels) :
    (s.run labels).history.terminated p = s.history.terminated p := by
  refine (TransitionSystem.Admits.invariant
    (I := fun s' => Reachable guard s' ∧
      s'.history.terminated p = s.history.terminated p) ?_ ⟨h, rfl⟩
    (hadmits.system.and ((hadmits.lives hlive).and haway))).2
  rintro s' a ⟨hreach, hsame⟩ ⟨⟨henabled, hguard⟩, hlive', hother⟩
  refine ⟨.next hreach hguard (.take henabled), ?_⟩
  have hs := Reachable.quiescent hreach henabled.live
  obtain ⟨r, heffect, hcore⟩ :=
    take_hasEffect hs.sync hs.zero_used henabled hlive'
  obtain ⟨-, hactive, -, hhistory, -, -⟩ := entered_frames (s := s') a
  rw [terminated_of_core hcore, heffect.terminated_other
    (by rw [hactive]; exact hother.symm), hhistory, hsame]

/--
In every run whose programs fit, a page of a process that waits stays as it is,
and meanwhile its frame is never given to anyone else: it does not become free,
and no other page and no kernel stack gets it.
-/
theorem waiting_process_isolated {b : Boot} (hb : b.WellFormed)
    (hidle : b.idleFile.frames b.idleArgs ≤ b.pfnList.length) {s : Kernel}
    (h : ReachableFrom b ProgramsFit s) {p : PcbPtr} (hp : p < s.npcb)
    (hgoes : s.history.terminated p = false) (hother : s.activePCB ≠ p)
    (labels : List Label) (hadmits : s.Admits ProgramsFit labels)
    (hlive : (s.run labels).Live) (haway : s.Away p labels) {i : Nat}
    (hi : i < userPtSize) (hvalid : (s.pcb.userPageTable p i).valid = true) :
    (s.run labels).pcb.userPageTable p i = s.pcb.userPageTable p i ∧
      (s.run labels).OwnPage p i := by
  have hreach := ReachableFrom.reachable hb h
  obtain ⟨hspace, -, -⟩ := hreach.run_keeps hp hother hadmits hlive haway
  have htable : (s.run labels).pcb.userPageTable p = s.pcb.userPageTable p :=
    congrArg Space.table hspace
  have haccounted := ReachableFrom.accounted hb hidle
    (ReachableFrom.run h labels hadmits) hlive
  refine ⟨congrFun htable i, ?_⟩
  apply ownPage_of_once (Nat.lt_of_lt_of_le hp (run_npcb_le labels)) ?_ hi
  · rw [htable]
    exact hvalid
  · exact haccounted.once _
  · rw [hreach.run_terminated hadmits hlive haway]
    exact hgoes

/-- One child grows and exits, the other takes frames that it has left. -/
theorem waiting_process_isolated_children :
    let s := (Boot.small 40).kernelStart.run
      (tick ++ [call (.fork 2), call (.fork 3)] ++ tick)
    let labels := [call (.brk (pageAddr 8)), call (.exit 0), .resume,
      call (.brk (pageAddr 8)), .trap ⟨0, 0⟩ .clock]
    (s.run labels).pcb.userPageTable 1 0 = s.pcb.userPageTable 1 0 ∧
      (s.run labels).OwnPage 1 0 := by
  intro s labels
  have hstart : ReachableFrom (Boot.small 40) ProgramsFit
      (Boot.small 40).kernelStart := .start ⟨rfl, by decide +kernel⟩
  have hreach : ReachableFrom (Boot.small 40) ProgramsFit s :=
    hstart.run _ (by decide +kernel)
  exact waiting_process_isolated (Boot.small_wellFormed 40) (by decide +kernel)
    hreach (by decide +kernel) (by decide +kernel) (by decide +kernel) labels
    (by decide +kernel) (.inr (by decide +kernel)) (by decide +kernel)
    (by decide +kernel) (by decide +kernel)

end Yalnix
