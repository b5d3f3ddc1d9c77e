import Yalnix.Memory.ExecFrames
import Yalnix.Memory.FrameOwners

/-!
# The frames after the boot

Idle has the kernel stack that the hardware booted on; all other frames of idle
and of the first program come from the pool.
-/

namespace Yalnix

open Kernel Ledger

/-- The frames of the stack that the hardware booted on. -/
def bootStack : List Nat :=
  (List.range kernelStackSize).map (kernelStackBase + ·)

namespace Kernel

variable {s s' : Kernel} {p : PcbPtr} {good : Nat → Prop}
  {file : Executable} {args : List (List UInt8)} {code : Int}

theorem loadProgram_terminated
    (h : s.loadProgram file args p = some (code, s')) :
    s'.history.terminated = s.history.terminated := by
  have herase := loadProgram_eraseMemory h
  exact (congrArg (fun k : Kernel => k.history.terminated) herase :)

section Load

variable (h : s.loadProgram file args p = some (code, s')) (hp : p < s.npcb)
  (hlive : s.history.terminated p = false)
include h hp hlive

theorem loadProgram_frames_atMost
    (hheld : AtMost good (s'.holding p) (s.holding p)) :
    AtMost good s'.frames s.frames := by
  have htable := oneTable_of_rewritten (loadProgram_rewritten h)
  have hterminated := loadProgram_terminated h
  refine htable.frames_atMost hp (fun q _ => congrFun hterminated q) ?_
  rw [share_live hlive, share_live ((congrFun hterminated p).trans hlive)]
  exact stock_atMost (congrFun htable.kernelStackPt p).symm hheld

theorem loadProgram_frames_atLeast
    (hheld : AtMost good (s.holding p) (s'.holding p)) :
    AtMost good s.frames s'.frames := by
  have htable := oneTable_of_rewritten (loadProgram_rewritten h)
  have hterminated := loadProgram_terminated h
  refine htable.frames_atLeast hp (fun q _ => congrFun hterminated q) ?_
  rw [share_live hlive, share_live ((congrFun hterminated p).trans hlive)]
  exact stock_atMost (congrFun htable.kernelStackPt p) hheld

end Load

/-- Idle is made without frames of the pool. -/
theorem initProcess_boot {ctx : UserContext} {c : PcbPtr}
    (h : s.initProcess none 0 ctx = some (c, s')) :
    s'.npcb = s.npcb + 1 ∧ s'.pfnList = s.pfnList ∧
      s'.history.terminated = s.history.terminated ∧
      s'.pcb.userPageTable s.npcb = (fun _ => invalidPte) ∧
      s'.pcb.kernelStackPt s.npcb = fun i =>
        ⟨true, Prot.noXWR, (s.kPt (kernelStackBase + i)).pfn⟩ := by
  unfold initProcess at h
  cases h
  exact ⟨rfl, rfl, rfl, upd_same _ _ _, upd_same _ _ _⟩

theorem kcCopy_stack_other {child : PcbPtr} (hp : p ≠ child)
    (k : KernelContext) :
    (s.kcCopy child k).pcb.kernelStackPt p = s.pcb.kernelStackPt p := by
  unfold kcCopy
  split
  · rfl
  · exact upd_other hp _ _

/-- `KCCopy` gives nobody a frame. -/
theorem kcCopy_frames (child : PcbPtr) (k : KernelContext) :
    (s.kcCopy child k).frames = s.frames := by
  have hshare : (s.kcCopy child k).share = s.share := by
    funext q
    unfold kcCopy
    split
    · rfl
    · by_cases hq : q = child
      · subst hq
        have hstack : framesOf (upd s.pcb.kernelStackPt q (fun i =>
            if i < kernelStackSize then
              { s.pcb.kernelStackPt q i with valid := true }
            else s.pcb.kernelStackPt q i) q) (List.range kernelStackSize) =
            framesOf (s.pcb.kernelStackPt q) (List.range kernelStackSize) := by
          apply framesOf_congr
          intro i hi
          rw [upd_same, if_pos (List.mem_range.1 hi)]
        exact congrArg (fun frames => if s.history.terminated q then []
          else ownedFrames (s.pcb.userPageTable q) ++ frames) hstack
      · exact share_congr rfl rfl (upd_other hq _ _)
  have hpool : (s.kcCopy child k).pfnList = s.pfnList ∧
      (s.kcCopy child k).npcb = s.npcb := by
    unfold kcCopy
    split
    · exact ⟨rfl, rfl⟩
    · exact ⟨rfl, rfl⟩
  unfold frames
  rw [hshare, hpool.1, hpool.2]

end Kernel

namespace Boot.Stages

variable {b : Boot} (st : b.Stages)

/-- Idle keeps the stack that the hardware booted on. -/
theorem idleMade_stack (hb : b.WellFormed) :
    framesOf (st.idleMade.pcb.kernelStackPt 0) (List.range kernelStackSize) =
      bootStack := by
  have hstack : st.idleMade.pcb.kernelStackPt 0 = _ :=
    (initProcess_boot st.idle).2.2.2.2
  rw [hstack]
  apply List.map_congr_left
  intro i hi
  have hi' := List.mem_range.1 hi
  have hdata := hb.data_le_brk
  have hbrk := hb.brk_lt_stack
  show (b.kPt (kernelStackBase + i)).pfn = kernelStackBase + i
  rw [Boot.kPt, if_neg (by omega), if_pos (.inr ⟨by omega, by omega⟩)]

theorem progLoaded_stack :
    st.progLoaded.pcb.kernelStackPt 0 = st.idleMade.pcb.kernelStackPt 0 := by
  have hidle := (loadProgram_rewritten st.loadIdle).kernelStackPt
  obtain ⟨hone, -, hmade, -⟩ := initProcess_made st.prog
  have hne : (0 : PcbPtr) ≠ ({ st.idleLoaded with
      idlePCB := 0, activePCB := 0 } : Kernel).npcb := by
    rw [← hone]
    exact Nat.zero_ne_one
  have hprog := (loadProgram_rewritten st.loadProg).kernelStackPt
  exact (congrFun hprog 0).trans ((hmade.kernelStackPt 0 hne).trans
    (congrFun hidle 0))

theorem idleMade_fresh : st.idleMade.pfnList = b.pfnList ∧
    ∀ i, (st.idleMade.pcb.userPageTable 0 i).valid = false := by
  obtain ⟨-, hpool, -, htable, -⟩ := initProcess_boot st.idle
  refine ⟨?_, fun i => ?_⟩
  · simp only [hpool, Boot.setUpGlobals]
  · have hzero : st.idleMade.pcb.userPageTable 0 = fun _ => invalidPte := htable
    rw [hzero]
    rfl

/-- Idle has no pages to discard before its program is loaded. -/
theorem idleMade_freedPool : st.idleMade.freedPool 0 = b.pfnList := by
  obtain ⟨hpool, hfresh⟩ := st.idleMade_fresh
  unfold freedPool
  rw [discardRegion1_invalid _ fun i _ => hfresh i]
  exact hpool

/-- Idle starts with the boot stack, and everything else is in the pool. -/
theorem idleMade_frames (hb : b.WellFormed) :
    st.idleMade.frames = b.pfnList ++ bootStack := by
  obtain ⟨hnpcb, -, hterminated, htable, -⟩ := initProcess_boot st.idle
  have hlive : st.idleMade.history.terminated 0 = false :=
    congrFun hterminated 0
  have hshare : st.idleMade.share 0 = bootStack := by
    have hzero : st.idleMade.pcb.userPageTable 0 = fun _ => invalidPte := htable
    unfold share spaceFrames
    rw [hlive, hzero, ownedFrames_empty, st.idleMade_stack hb]
    rfl
  have hone : st.idleMade.npcb = 1 := hnpcb
  unfold frames inventory
  rw [hone, st.idleMade_fresh.1, List.range_one, List.flatMap_singleton, hshare]

theorem terminated :
    st.idleMade.history.terminated = (fun _ => false) ∧
      st.idleLoaded.history.terminated = (fun _ => false) ∧
      st.progMade.history.terminated = fun _ => false := by
  have hidle : st.idleMade.history.terminated = fun _ => false :=
    (initProcess_boot st.idle).2.2.1
  have hloaded := (loadProgram_terminated st.loadIdle).trans hidle
  have herase := (initProcess_eraseMemory st.prog).2
  have hmade : st.progMade.history.terminated =
      st.idleLoaded.history.terminated :=
    (congrArg (fun k : Kernel => k.history.terminated) herase :)
  exact ⟨hidle, hloaded, hmade.trans hloaded⟩

theorem npcb : st.idleMade.npcb = 1 ∧ st.progMade.npcb = 2 := by
  have hidle : st.idleMade.npcb = 1 := (initProcess_boot st.idle).1
  have hloaded : st.idleLoaded.npcb = 1 :=
    (loadProgram_rewritten st.loadIdle).npcb.trans hidle
  have hmade := (initProcess_made st.prog).2.1
  exact ⟨hidle, hmade.trans (congrArg (· + 1) hloaded)⟩

variable (hpid : b.progPid ≠ 0)
include hpid

/-- The frames move from the pool to the two processes. -/
theorem frames_noneMade
    (hidle : NoneMade (st.idleMade.holding 0) (st.idleLoaded.holding 0)) :
    NoneMade st.idleMade.frames (Boot.startProg st.progLoaded 0 1).frames := by
  obtain ⟨hlive, hloaded, hmade⟩ := st.terminated
  have hidleLt : 0 < st.idleMade.npcb := by
    rw [st.npcb.1]
    exact Nat.zero_lt_one
  have hprogLt : 1 < st.progMade.npcb := by
    rw [st.npcb.2]
    exact Nat.one_lt_two
  have h₁ := loadProgram_frames_atMost st.loadIdle hidleLt
    (congrFun hlive 0) hidle
  have h₂ := (initProcess_furnished hpid st.prog).frames_noneMade fun q _ =>
    (congrFun hmade q).trans (congrFun hloaded q).symm
  have h₃ := loadProgram_frames_atMost st.loadProg hprogLt
    (congrFun hmade 1)
    (loadProgram_noneMade (fun _ => st.loaded) st.loadProg)
  unfold Boot.startProg
  rw [kcCopy_frames]
  exact h₃.trans (h₂.trans h₁)

theorem frames_noneLost
    (hidle : NoneLost (st.idleMade.holding 0) (st.idleLoaded.holding 0))
    (hprog : NoneLost (st.progMade.holding 1) (st.progLoaded.holding 1)) :
    NoneLost st.idleMade.frames (Boot.startProg st.progLoaded 0 1).frames := by
  obtain ⟨hlive, hloaded, hmade⟩ := st.terminated
  have hidleLt : 0 < st.idleMade.npcb := by
    rw [st.npcb.1]
    exact Nat.zero_lt_one
  have hprogLt : 1 < st.progMade.npcb := by
    rw [st.npcb.2]
    exact Nat.one_lt_two
  have h₁ := loadProgram_frames_atLeast st.loadIdle hidleLt
    (congrFun hlive 0) hidle
  have h₂ := (initProcess_furnished hpid st.prog).frames_noneLost
    (fun q _ => (congrFun hmade q).trans (congrFun hloaded q).symm)
    (congrFun hmade _)
  have h₃ := loadProgram_frames_atLeast st.loadProg hprogLt
    (congrFun hmade 1) hprog
  unfold Boot.startProg
  rw [kcCopy_frames]
  exact h₁.trans (h₂.trans h₃)

end Boot.Stages

theorem Boot.mem_pfnList {b : Boot} {f : Nat} (h : f ∈ b.pfnList) :
    vmem1BasePage ≤ f := by
  obtain ⟨i, -, rfl⟩ := List.mem_map.1 h
  exact Nat.le_add_right _ _

theorem Boot.kernelStart_stack {b : Boot} (hb : b.WellFormed)
    (hmode : b.kernelStart.mode = .user) :
    framesOf (b.kernelStart.pcb.kernelStackPt 0) (List.range kernelStackSize) =
      bootStack := by
  obtain ⟨st, hresult⟩ := stages hmode
  have hkept : (Boot.startProg st.progLoaded 0 1).pcb.kernelStackPt 0 =
      st.progLoaded.pcb.kernelStackPt 0 := by
    unfold Boot.startProg
    exact kcCopy_stack_other Nat.zero_ne_one .kernelStart
  rw [hresult, hkept, st.progLoaded_stack]
  exact st.idleMade_stack hb

theorem Boot.kernelStart_noneMade {b : Boot} (hb : b.WellFormed)
    (hmode : b.kernelStart.mode = .user)
    (hidle : b.idleFile.frames b.idleArgs ≤ b.pfnList.length) :
    NoneMade (b.pfnList ++ bootStack) b.kernelStart.frames := by
  obtain ⟨st, hresult⟩ := stages hmode
  obtain ⟨hfree, hfresh⟩ := st.idleMade_fresh
  rw [hresult, ← st.idleMade_frames hb]
  refine st.frames_noneMade hb.progPid_ne_zero
    (loadProgram_noneMade (fun haccepted => ?_) st.loadIdle)
  obtain ⟨li, hli⟩ := Option.ne_none_iff_exists'.1 haccepted
  have hload := st.loadIdle
  rw [loadProgram_eq, hli] at hload
  have hzero : 0 ∉ st.idleMade.pfnList := by
    rw [hfree]
    intro hmem
    exact absurd (mem_pfnList hmem) (by decide)
  rw [loadImage_frames hzero hfresh hload, hfree]
  unfold Executable.frames at hidle
  rw [hli] at hidle
  exact hidle

/-- The first program is loaded with frames enough, but with some other pool. -/
theorem Boot.kernelStart_noneLost {b : Boot} (hb : b.WellFormed)
    (hmode : b.kernelStart.mode = .user)
    (hidle : b.idleFile.MapsOnce b.idleArgs b.pfnList)
    (hprog : ∀ pool, b.progFile.MapsOnce b.progArgs pool) :
    NoneLost (b.pfnList ++ bootStack) b.kernelStart.frames := by
  obtain ⟨st, hresult⟩ := stages hmode
  rw [hresult, ← st.idleMade_frames hb]
  refine st.frames_noneLost hb.progPid_ne_zero (loadProgram_noneLost ?_
    st.loadIdle) (loadProgram_noneLost (hprog _) st.loadProg)
  rw [st.idleMade_freedPool]
  exact hidle

end Yalnix
