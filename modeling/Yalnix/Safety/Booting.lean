import Yalnix.Memory.Region0
import Yalnix.Safety.Survival

/-!
# How a boot ends

`KernelStart` makes and loads idle and the first program from one pool of frames.
Idle must fit; the outcome then depends on the checks of the loader and on the
number of frames only.  Without frames for the kernel stack of the first program
its PCB is NULL, and the loader writes through that unless it refuses the file.
-/

namespace Yalnix

open Kernel

namespace Kernel

variable {s s' : Kernel} {p : PcbPtr} {file : Executable}
  {args : List (List UInt8)}

/-- An image that is built to the end has taken a frame for each page. -/
theorem buildImage_pool {l : Layout} (hzero : 0 ∉ s.pfnList)
    (hfresh : ∀ i, (s.pcb.userPageTable p i).valid = false)
    (h : s.buildImage l p = some (true, s')) :
    s.pfnList.length = l.frames + s'.pfnList.length ∧ 0 ∉ s'.pfnList := by
  have hpool : ((s.discardImage l p).setTextIndex p l.textPg1).pfnList =
      s.pfnList :=
    congrArg Prod.snd (discardRegion1_invalid s.pfnList fun i _ => hfresh i)
  unfold buildImage at h
  simp only at h
  split at h
  · cases h
  · cases h
  · rename_i s₁ htext
    obtain ⟨htextPool, hzero₁⟩ := loadSegment_true (hpool.symm ▸ hzero) htext
    split at h
    · cases h
    · cases h
    · rename_i s₂ hdata
      obtain ⟨hdataPool, hzero₂⟩ :=
        loadSegment_true (s := s₁.setDataIndex p l.dataPg1) hzero₁ hdata
      obtain ⟨hstackPool, hzero₃⟩ := loadSegment_true
        (s := (s₂.setHeapIndex p l.heapIndex).setStackIndex p l.stackIndex)
        hzero₂ h
      have hdata' : s₁.pfnList.length = l.dataCount + s₂.pfnList.length :=
        hdataPool
      have hstack' : s₂.pfnList.length = l.stackCount + s'.pfnList.length :=
        hstackPool
      rw [hpool] at htextPool
      refine ⟨?_, hzero₃⟩
      rw [Layout.frames]
      omega

theorem readImage_pool {file : Executable} {li : LoadInfo} {l : Layout}
    {code : Int} (h : s.readImage file li l p = some (code, s')) :
    s'.pfnList = s.pfnList := by
  rcases readImage_cases h with ⟨-, rfl, -⟩ | ⟨-, -, rfl⟩
  · rfl
  · rfl

/-- The load of a process without pages of its own, from a pool without frame 0:
how it ends, and what it leaves of a pool that is large enough. -/
theorem loadProgram_fresh (hinside : file.InTable args) (hzero : 0 ∉ s.pfnList)
    (hfresh : ∀ i, (s.pcb.userPageTable p i).valid = false) :
    ∃ code s', s.loadProgram file args p = some (code, s') ∧
      (code ≠ Rc.error ↔ (file.accepted args).isSome = true ∧
        file.frames args ≤ s.pfnList.length) ∧
      (file.frames args ≤ s.pfnList.length →
        s.pfnList.length = file.frames args + s'.pfnList.length ∧
          0 ∉ s'.pfnList) := by
  rw [loadProgram_eq]
  unfold Executable.frames
  cases haccepted : file.accepted args with
  | none => exact ⟨Rc.error, s, rfl, by simp, fun _ => by simpa using hzero⟩
  | some li =>
      have hsome : s.loadImage file li (layout li args) p ≠ none := by
        obtain ⟨htable, hwrites⟩ := hinside li haccepted
        rw [ne_eq, loadImage_faults_iff]
        rintro (⟨i, hi, houtside⟩ | ⟨-, -, houtside⟩)
        · exact houtside (htable.mapped hi)
        · exact houtside hwrites
      obtain ⟨⟨code, s'⟩, hload⟩ := Option.ne_none_iff_exists'.1 hsome
      have hframes := loadImage_frames hzero hfresh hload
      refine ⟨code, s', hload, by simpa using hframes, fun hfits => ?_⟩
      have hcode := hframes.2 hfits
      rw [loadImage_eq] at hload
      split at hload
      · cases hload
      · cases hload
        exact absurd rfl hcode
      · rename_i built hbuilt
        rw [readImage_pool hload]
        exact buildImage_pool hzero hfresh hbuilt

end Kernel

namespace Boot

variable {b : Boot}

theorem pfnList_length : b.pfnList.length = b.numOfFrames - vmem1BasePage := by
  simp [pfnList]

/-- The page below the kernel stack is free for `KCCopy`. -/
theorem kPt_reserved (hb : b.WellFormed) :
    reservedKernelIndex b.kPt = some reservedPage := by
  have hdata := hb.data_le_brk
  have hbrk := hb.brk_lt_stack
  apply reservedKernelIndex_eq
  · rw [kPt, if_neg (by omega), if_pos (.inr ⟨Nat.le_refl _, by decide⟩)]
  · have hpage : reservedPage + 1 = kernelStackBase := rfl
    rw [kPt, if_neg (by omega), if_neg (by omega)]

theorem startProg_mode {s : Kernel} {idle prog : PcbPtr}
    (h : (reservedKernelIndex s.kPt).isSome = true) :
    (startProg s idle prog).mode = s.mode :=
  kcCopy_mode h

/-- What `KernelStart` has made of idle before the first program. -/
structure IdleReady (b : Boot) (s : Kernel) : Prop where
  start : b.startIdle = some (0, s)
  active : s.activePCB = 0
  npcb : s.npcb = 1
  mode : s.mode = .user
  kPt : s.kPt = b.kPt
  pool : b.pfnList.length = b.idleFile.frames b.idleArgs + s.pfnList.length
  zero : 0 ∉ s.pfnList

theorem idleReady (hinside : b.idleFile.InTable b.idleArgs)
    (hfits : b.idleFile.frames b.idleArgs ≤ b.pfnList.length) :
    ∃ s, b.IdleReady s := by
  obtain ⟨made, hmade⟩ : ∃ made,
      b.setUpGlobals.initProcess none 0 b.uctxt = some (0, made) := ⟨_, rfl⟩
  obtain ⟨hnpcb, hpool, -, htable, -⟩ := initProcess_boot hmade
  have hpool' : made.pfnList = b.pfnList := by
    simp only [hpool, setUpGlobals]
  have hzero : 0 ∉ made.pfnList := by
    rw [hpool']
    exact fun hmem => absurd (mem_pfnList hmem) (by decide)
  have hfresh (i : Nat) : (made.pcb.userPageTable 0 i).valid = false := by
    have hempty : made.pcb.userPageTable 0 = fun _ => invalidPte := htable
    simp [hempty, invalidPte]
  obtain ⟨code, loaded, hload, -, hrest⟩ :=
    loadProgram_fresh (p := 0) hinside hzero hfresh
  obtain ⟨hlength, hzero'⟩ := hrest (hpool' ▸ hfits)
  have hkept := loadProgram_rewritten hload
  have hmode : loaded.mode = made.mode :=
    (congrArg Kernel.mode (loadProgram_eraseMemory hload) :)
  refine ⟨{ loaded with idlePCB := 0, activePCB := 0 }, ?_⟩
  constructor
  · simp only [startIdle, hmade, hload]
  · rfl
  · exact hkept.npcb.trans hnpcb
  · rw [hmode]
    cases hmade
    rfl
  · rw [show loaded.kPt = made.kPt from hkept.kPt]
    cases hmade
    rfl
  · rw [← hpool']
    exact hlength
  · exact hzero'

end Boot

/--
How a boot ends whose programs fit the page table, with frames enough for idle.
A file that the loader refuses halts the machine even when there is no PCB to
load it for.
-/
theorem boot_outcome {b : Boot} (hb : b.WellFormed) (hload : b.LoadsInTable)
    (hidle : b.idleFile.frames b.idleArgs ≤ b.numOfFrames - vmem1BasePage) :
    b.kernelStart.mode =
      if (b.progFile.accepted b.progArgs).isSome = false then .halted
      else if b.numOfFrames - vmem1BasePage <
          b.idleFile.frames b.idleArgs + kernelStackSize then .undefined
      else if b.idleFile.frames b.idleArgs + kernelStackSize +
          b.progFile.frames b.progArgs ≤ b.numOfFrames - vmem1BasePage then
        .user
      else .halted := by
  rw [← Boot.pfnList_length] at hidle ⊢
  obtain ⟨s, hs⟩ := Boot.idleReady hload.idle hidle
  have hpool := hs.pool
  have hshort : s.StackRunsOut ↔ b.pfnList.length <
      b.idleFile.frames b.idleArgs + kernelStackSize := by
    have htop : 0 ∉ s.pfnList.take kernelStackSize :=
      fun hmem => hs.zero (List.mem_of_mem_take hmem)
    rw [StackRunsOut, or_iff_left htop]
    omega
  have hmade := initProcess_isSome_iff (s := s) (some 0) b.uctxt
    hb.progPid_ne_zero
  unfold Boot.kernelStart
  rw [hs.start]
  cases hprog : s.initProcess (some 0) b.progPid b.uctxt with
  | none =>
      rw [hprog, hshort] at hmade
      have hfew : b.pfnList.length <
        b.idleFile.frames b.idleArgs + kernelStackSize := by simpa using hmade
      simp only [hprog]
      cases b.progFile.accepted b.progArgs with
      | none => rfl
      | some li =>
          rw [if_neg (by simp), if_pos hfew]
          rfl
  | some made =>
      obtain ⟨prog, ready⟩ := made
      rw [hprog, hshort] at hmade
      have henough : ¬ b.pfnList.length <
        b.idleFile.frames b.idleArgs + kernelStackSize := by simpa using hmade
      rw [if_neg henough]
      obtain ⟨rfl, -, -, -⟩ := initProcess_made hprog
      obtain ⟨hkPt, hdrop, htable⟩ :=
        initProcess_memory hb.progPid_ne_zero (hs.active ▸ hprog)
      have hmode : ready.mode = s.mode :=
        (congrArg Kernel.mode (initProcess_eraseMemory hprog).2 :)
      obtain ⟨code, loaded, hloadProg, hcode, -⟩ :=
        loadProgram_fresh (s := ready) (p := s.npcb) hload.prog
          (by rw [hdrop]; exact fun hmem => hs.zero (List.mem_of_mem_drop hmem))
          (fun i => by simp [htable, invalidPte])
      have hmode' : loaded.mode = ready.mode :=
        (congrArg Kernel.mode (loadProgram_eraseMemory hloadProg) :)
      have hfits : b.progFile.frames b.progArgs ≤ ready.pfnList.length ↔
          b.idleFile.frames b.idleArgs + kernelStackSize +
            b.progFile.frames b.progArgs ≤ b.pfnList.length := by
        rw [hdrop, List.length_drop]
        omega
      simp only [hprog, hloadProg]
      rw [hfits] at hcode
      by_cases hok : code = Rc.error
      · rw [if_pos hok]
        split
        · rfl
        · rename_i hrefused
          rw [if_neg fun h => hcode.2 ⟨Bool.of_not_eq_false hrefused, h⟩ hok]
          rfl
      · obtain ⟨haccepted, hframes⟩ := hcode.1 hok
        rw [if_neg hok, if_neg (by simp [haccepted]), if_pos hframes,
          Boot.startProg_mode, hmode', hmode]
        · exact hs.mode
        · have hkept : loaded.kPt = b.kPt :=
            (loadProgram_rewritten hloadProg).kPt.trans (hkPt.trans hs.kPt)
          rw [hkept, Boot.kPt_reserved hb]
          rfl

/-- The small machine with a first program that does not open. -/
def Boot.smallMissing (frames : Nat) : Boot :=
  { Boot.small frames with progFile := { smallProgram with opens := false } }

/-- The small program boots with eight frames above the kernel; with seven the
first program does not fit, with four its kernel stack does not.  A file that is
missing halts the machine all the same. -/
theorem boot_outcome_small :
    (Boot.small 8).kernelStart.mode = .user ∧
      (Boot.small 7).kernelStart.mode = .halted ∧
      (Boot.small 4).kernelStart.mode = .undefined ∧
      (Boot.smallMissing 4).kernelStart.mode = .halted := by
  have hsmall : smallProgram.InTable [] := by decide +kernel
  have hmissing : (Boot.smallMissing 4).LoadsInTable := ⟨hsmall, nofun⟩
  exact ⟨(boot_outcome (Boot.small_wellFormed 8) ⟨hsmall, hsmall⟩
      (by decide +kernel)).trans (by decide +kernel),
    (boot_outcome (Boot.small_wellFormed 7) ⟨hsmall, hsmall⟩
      (by decide +kernel)).trans (by decide +kernel),
    (boot_outcome (Boot.small_wellFormed 4) ⟨hsmall, hsmall⟩
      (by decide +kernel)).trans (by decide +kernel),
    (boot_outcome (b := Boot.smallMissing 4) ⟨by decide, by decide, by decide⟩
      hmissing (by decide +kernel)).trans (by decide +kernel)⟩

end Yalnix
