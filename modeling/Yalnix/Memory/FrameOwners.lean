import Yalnix.Memory.FrameEffects
import Yalnix.Process.ProcessTree
import Yalnix.Process.SystemRuns

/-!
# Who owns a frame

A process that has not terminated owns the frames of its mapped user pages and
of its kernel stack; the other frames are in the pool.  A step exchanges frames
between the active process and the pool, and `Fork` gives frames of the pool to
a new process.
-/

namespace Yalnix

open Ledger

namespace Kernel

variable {s s' r : Kernel} {a : Label} {p : PcbPtr} {good : Nat → Prop}

/-- The frames of a process that has not terminated. -/
def share (s : Kernel) (p : PcbPtr) : List Nat :=
  if s.history.terminated p then []
  else spaceFrames (s.pcb.userPageTable p) (s.pcb.kernelStackPt p)

/-- Every frame that is free or belongs to a process. -/
def frames (s : Kernel) : List Nat :=
  inventory s.pfnList s.share (List.range s.npcb)

theorem share_live (h : s.history.terminated p = false) :
    s.share p ++ s.pfnList = s.stock p := by
  unfold share stock
  rw [h]
  rfl

theorem share_dead (h : s.history.terminated p = true) : s.share p = [] := by
  unfold share
  rw [h]
  rfl

theorem share_atMost_stock : AtMost good (s.share p ++ s.pfnList) (s.stock p) := by
  cases h : s.history.terminated p with
  | false =>
      rw [share_live h]
      exact .refl _
  | true =>
      intro f _
      rw [share_dead h, List.nil_append, stock, List.count_append]
      exact Nat.le_add_left _ _

theorem share_congr
    (hterminated : s'.history.terminated p = s.history.terminated p)
    (htable : s'.pcb.userPageTable p = s.pcb.userPageTable p)
    (hstack : s'.pcb.kernelStackPt p = s.pcb.kernelStackPt p) :
    s'.share p = s.share p := by
  unfold share
  rw [hterminated, htable, hstack]

/-! ## Who has terminated -/

/-- Only the active process terminates: it ends, or a fault kills it. -/
theorem Effect.terminated_cases (h : Effect s a r) :
    r.history.terminated = s.history.terminated ∨
      r.history.terminated = upd s.history.terminated s.activePCB true ∧
        (s.ends a ≠ none ∨ a.faults = true) := by
  cases h with
  | @exit _ code _ hends =>
      have hc := s.exitCleanup_cleaned code
      right
      refine ⟨?_, .inl ?_⟩
      · rw [exited, swapped_history]
        show upd (s.exitCleanup code).2.history.terminated s.activePCB true = _
        rw [hc.terminated]
      · rw [hends]
        exact Option.some_ne_none code
  | fault _ hfault =>
      right
      refine ⟨?_, .inr ?_⟩
      · rw [swapped_history]
        rfl
      · rcases hfault with rfl | rfl
        · rfl
        · rfl
  | waitSleeps => exact .inl (by rw [swapped_history]; rfl)
  | delay => exact .inl (by rw [swapped_history]; rfl)
  | clock => exact .inl (by rw [swapped_history])
  | clockResumes _ hscan =>
      exact .inl (Placement.scanned_same hscan).terminated
  | ttyReadSleeps => exact .inl (by rw [swapped_history]; rfl)
  | ttyWriteWaits => exact .inl (by rw [swapped_history]; rfl)
  | ttyWriteSleeps _ _ _ _ hwrites =>
      left
      rw [swapped_history]
      exact hwrites.terminated
  | @ttyWriteReturns _ t s₁ hwrites =>
      have hdone := (Settled.writeDone_frame (s := s₁) t).2.1
      left
      show (s₁.writeDone t).history.terminated = s.history.terminated
      rw [hdone, hwrites.terminated]
  | ttyTransmitted _ _ hcheck =>
      exact .inl (Placement.recheck_same hcheck).terminated
  | pipeSleeps => exact .inl (by rw [swapped_history]; rfl)
  | _ => exact .inl rfl

theorem Effect.terminated_other (h : Effect s a r) (hp : p ≠ s.activePCB) :
    r.history.terminated p = s.history.terminated p := by
  rcases h.terminated_cases with hsame | ⟨hdead, -⟩
  · rw [hsame]
  · rw [hdead, upd_other hp]

/-! ## Exchanges -/

namespace OneTable

variable (h : s.OneTable p s') (hp : p < s.npcb)
  (hothers : ∀ q, q ≠ p → s'.history.terminated q = s.history.terminated q)
include h hp hothers

theorem frames_atMost
    (hstake : AtMost good (s'.share p ++ s'.pfnList) (s.share p ++ s.pfnList)) :
    AtMost good s'.frames s.frames := by
  unfold frames
  rw [h.npcb]
  refine .transfer List.nodup_range (List.mem_range.2 hp) ?_ hstake
  intro q _ hq
  exact share_congr (hothers q hq) (h.userPageTable q hq)
    (congrFun h.kernelStackPt q)

theorem frames_atLeast
    (hstake : AtMost good (s.share p ++ s.pfnList) (s'.share p ++ s'.pfnList)) :
    AtMost good s.frames s'.frames := by
  unfold frames
  rw [h.npcb]
  refine .transfer List.nodup_range (List.mem_range.2 hp) ?_ hstake
  intro q _ hq
  exact (share_congr (hothers q hq) (h.userPageTable q hq)
    (congrFun h.kernelStackPt q)).symm

end OneTable

theorem SameTables.oneTable (h : SameTables s s') : s.OneTable p s' :=
  ⟨h.npcb, fun q _ => congrFun h.userPageTable q, h.kernelStackPt⟩

theorem SameTables.trans {s₁ : Kernel} (h : SameTables s s₁)
    (h' : SameTables s₁ s') : SameTables s s' :=
  ⟨h'.npcb.trans h.npcb, h'.userPageTable.trans h.userPageTable,
    h'.kernelStackPt.trans h.kernelStackPt⟩

theorem SameTables.stock (h : SameTables s s') (hpool : s'.pfnList = s.pfnList) :
    s'.stock p = s.stock p := by
  unfold Kernel.stock
  rw [h.userPageTable, h.kernelStackPt, hpool]

namespace Freed

theorem noneMade (h : s.Freed p s') :
    NoneMade (s.stock p) (s'.share p ++ s'.pfnList) := by
  rw [share_dead h.terminated, h.pfnList]
  exact freeAddrSpace_noneMade _ _ _

/-- A mapped kernel stack is freed as a whole. -/
theorem noneLost (h : s.Freed p s') (hstack : ∀ i, i < kernelStackSize →
    (s.pcb.kernelStackPt p i).valid = true) :
    NoneLost (s.stock p) (s'.share p ++ s'.pfnList) := by
  rw [share_dead h.terminated, h.pfnList]
  exact .of_perm (freeAddrSpace_perm s.pfnList hstack).symm

end Freed

namespace Furnished

variable (h : s.Furnished s')
  (hothers : ∀ q, q ≠ s.npcb → s'.history.terminated q = s.history.terminated q)
include h hothers

theorem shares : ∀ q ∈ List.range s.npcb, s'.share q = s.share q := by
  intro q hq
  have hne : q ≠ s.npcb := Nat.ne_of_lt (List.mem_range.1 hq)
  exact share_congr (hothers q hne) (h.userPageTable q hne)
    (h.kernelStackPt q hne)

theorem frames_noneMade : NoneMade s.frames s'.frames := by
  unfold Kernel.frames
  rw [h.npcb, List.range_succ]
  exact .join (h.shares hothers)
    (share_atMost_stock.trans h.frames.noneMade)

theorem frames_noneLost (hlive : s'.history.terminated s.npcb = false) :
    NoneLost s.frames s'.frames := by
  unfold Kernel.frames
  rw [h.npcb, List.range_succ]
  refine .join_of_le (h.shares hothers) ?_
  rw [share_live hlive]
  exact h.frames.noneLost

end Furnished

end Kernel

/-! ## Runs after one boot -/

/-- The states of runs after the boot `b` whose steps all meet the guard. -/
abbrev ReachableFrom (b : Boot) (guard : Kernel → Label → Prop) :
    Kernel → Prop :=
  TransitionSystem.Reach (fun s => s = b.kernelStart ∧ s.mode = .user) Step guard

theorem ReachableFrom.reachable {b : Boot} {guard : Kernel → Label → Prop}
    {s : Kernel} (hb : b.WellFormed) (h : ReachableFrom b guard s) :
    Reachable guard s :=
  h.of_init fun _ hs => ⟨b, hb, hs.1, hs.2⟩

theorem ReachableFrom.run {b : Boot} {guard : Kernel → Label → Prop}
    {s : Kernel} (h : ReachableFrom b guard s) (labels : List Label)
    (hadmits : s.Admits guard labels) : ReachableFrom b guard (s.run labels) := by
  induction labels generalizing s with
  | nil => exact h
  | cons a rest ih =>
      obtain ⟨⟨henabled, hguard⟩, hrest⟩ := hadmits
      exact ih (.next h hguard (.take henabled)) hrest

end Yalnix
