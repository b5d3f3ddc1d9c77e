import Yalnix.Memory.View

/-!
# The steps that change memory

Loading a program, `Brk` and a memory trap write the tables of one process.
`Exit` frees the tables of the active process and switches.  `Fork` writes the
tables of its child and the Region 0 page it copies through.
-/

namespace Yalnix

namespace Memory

/-- Only the tables, the PCB context and the frames of `p` have changed, and
`REG_PTBR1` may point to `p`. -/
structure Rewritten (m : Memory) (p : PcbPtr) (m' : Memory) : Prop where
  active : m'.active = m.active
  npcb : m'.npcb = m.npcb
  kPt : m'.kPt = m.kPt
  uctxt : m'.uctxt = m.uctxt
  kernelContext : m'.kernelContext = m.kernelContext
  kernelStackPt : m'.kernelStackPt = m.kernelStackPt
  ptbr1 : m'.ptbr1 = m.ptbr1 ∨ m'.ptbr1 = p
  userPageTable : ∀ q, q ≠ p → m'.userPageTable q = m.userPageTable q
  userContext : ∀ q, q ≠ p → m'.userContext q = m.userContext q

namespace Rewritten

variable {m m' m'' : Memory} {p : PcbPtr}

theorem refl (m : Memory) (p : PcbPtr) : Rewritten m p m :=
  ⟨rfl, rfl, rfl, rfl, rfl, rfl, .inl rfl, fun _ _ => rfl, fun _ _ => rfl⟩

theorem trans (h : Rewritten m p m') (h' : Rewritten m' p m'') :
    Rewritten m p m'' where
  active := h'.active.trans h.active
  npcb := h'.npcb.trans h.npcb
  kPt := h'.kPt.trans h.kPt
  uctxt := h'.uctxt.trans h.uctxt
  kernelContext := h'.kernelContext.trans h.kernelContext
  kernelStackPt := h'.kernelStackPt.trans h.kernelStackPt
  ptbr1 := by
    rcases h'.ptbr1 with hsame | hp
    · rw [hsame]
      exact h.ptbr1
    · exact .inr hp
  userPageTable := fun q hq =>
    (h'.userPageTable q hq).trans (h.userPageTable q hq)
  userContext := fun q hq => (h'.userContext q hq).trans (h.userContext q hq)

end Rewritten

end Memory

namespace Kernel

open Memory

variable {s s' : Kernel} {p : PcbPtr}

/-! ## Loading -/

theorem setUserContext_rewritten (ctx : UserContext) :
    Rewritten s.memory p (s.setUserContext p ctx).memory :=
  ⟨rfl, rfl, rfl, rfl, rfl, rfl, .inl rfl, fun _ _ => rfl,
    fun _ hq => upd_other hq _ _⟩

theorem setUserPageTable_rewritten (table : Nat → Pte) (pool : List Nat) :
    Rewritten s.memory p
      ((s.setUserPageTable p table).setPfnList pool).memory :=
  ⟨rfl, rfl, rfl, rfl, rfl, rfl, .inl rfl, fun _ hq => upd_other hq _ _,
    fun _ _ => rfl⟩

theorem discardImage_rewritten (l : Layout) :
    Rewritten s.memory p (s.discardImage l p).memory :=
  ⟨rfl, rfl, rfl, rfl, rfl, rfl, .inr rfl, fun _ hq => upd_other hq _ _,
    fun _ hq => upd_other hq _ _⟩

theorem setTextIndex_rewritten (i : Int) :
    Rewritten s.memory p (s.setTextIndex p i).memory :=
  ⟨rfl, rfl, rfl, rfl, rfl, rfl, .inl rfl, fun _ _ => rfl, fun _ _ => rfl⟩

theorem setDataIndex_rewritten (i : Int) :
    Rewritten s.memory p (s.setDataIndex p i).memory :=
  ⟨rfl, rfl, rfl, rfl, rfl, rfl, .inl rfl, fun _ _ => rfl, fun _ _ => rfl⟩

theorem setHeapStackIndex_rewritten (i j : Int) :
    Rewritten s.memory p ((s.setHeapIndex p i).setStackIndex p j).memory :=
  ⟨rfl, rfl, rfl, rfl, rfl, rfl, .inl rfl, fun _ _ => rfl, fun _ _ => rfl⟩

theorem loadSegment_rewritten {first : Int} {count : Nat} {ok : Bool}
    (h : s.loadSegment p first count = some (ok, s')) :
    Rewritten s.memory p s'.memory := by
  unfold loadSegment at h
  split at h
  · cases h
  · cases h
    exact setUserPageTable_rewritten _ _
  · cases h
    exact setUserPageTable_rewritten _ _

theorem readImage_rewritten {file : Executable} {li : LoadInfo} {l : Layout}
    {code : Int} (h : s.readImage file li l p = some (code, s')) :
    Rewritten s.memory p s'.memory := by
  rcases readImage_cases h with ⟨-, rfl, -⟩ | ⟨-, -, rfl⟩
  · exact .refl _ _
  · exact ⟨rfl, rfl, rfl, rfl, rfl, rfl, .inl rfl,
      fun _ hq => upd_other hq _ _, fun _ hq => upd_other hq _ _⟩

theorem loadImage_rewritten {file : Executable} {li : LoadInfo} {l : Layout}
    {code : Int} (h : s.loadImage file li l p = some (code, s')) :
    Rewritten s.memory p s'.memory := by
  have hstart := (discardImage_rewritten (s := s) (p := p) l).trans
    (setTextIndex_rewritten l.textPg1)
  unfold loadImage at h
  simp only at h
  split at h
  · cases h
  · rename_i htext
    cases h
    exact hstart.trans (loadSegment_rewritten htext)
  · rename_i s₁ htext
    have h₁ := (hstart.trans (loadSegment_rewritten htext)).trans
      (setDataIndex_rewritten l.dataPg1)
    split at h
    · cases h
    · rename_i hdata
      cases h
      exact h₁.trans (loadSegment_rewritten hdata)
    · rename_i s₂ hdata
      have h₂ := (h₁.trans (loadSegment_rewritten hdata)).trans
        (setHeapStackIndex_rewritten l.heapIndex l.stackIndex)
      split at h
      · cases h
      · rename_i hstack
        cases h
        exact h₂.trans (loadSegment_rewritten hstack)
      · rename_i s₃ hstack
        exact (h₂.trans (loadSegment_rewritten hstack)).trans
          (readImage_rewritten h)

theorem loadProgram_rewritten {file : Executable}
    {args : List (List UInt8)} {code : Int}
    (h : s.loadProgram file args p = some (code, s')) :
    Rewritten s.memory p s'.memory := by
  unfold loadProgram at h
  split at h
  · cases h
    exact .refl _ _
  · split at h
    · cases h
      exact .refl _ _
    · split at h
      · cases h
        exact .refl _ _
      · split at h
        · cases h
          exact .refl _ _
        · exact loadImage_rewritten h

theorem kernelExec_rewritten {a : ExecArgs} {code : Int}
    (h : s.kernelExec a = some (code, s')) :
    Rewritten s.memory s.activePCB s'.memory := by
  unfold kernelExec at h
  split at h
  · cases h
    exact .refl _ _
  · simp only at h
    split at h
    · cases h
    · rename_i s₁ hload
      have h₁ := (setUserContext_rewritten (s := s) ⟨0, 0⟩).trans
        (loadProgram_rewritten hload)
      split at h
      · cases h
        exact h₁
      · cases h
        exact h₁

/-! ## Brk and memory traps -/

theorem kernelBrk_rewritten (addr : Nat) :
    Rewritten s.memory s.activePCB (s.kernelBrk addr).memory := by
  have hgrown (table : Nat → Pte) (pool : List Nat) (target : Int) :
      Rewritten s.memory s.activePCB (((s.setUserPageTable s.activePCB
        table).setPfnList pool).setHeapIndex s.activePCB target).memory :=
    (setUserPageTable_rewritten table pool).trans
      ⟨rfl, rfl, rfl, rfl, rfl, rfl, .inl rfl, fun _ _ => rfl, fun _ _ => rfl⟩
  unfold kernelBrk
  simp only
  split
  · exact .refl _ _
  · split
    · exact .refl _ _
    · split
      · split
        · exact .refl _ _
        · split
          · exact .refl _ _
          · split
            · rw [ret_memory]
              exact hgrown _ _ _
            · rw [ret_memory]
              exact setUserPageTable_rewritten _ _
      · split
        · exact .refl _ _
        · split
          · exact .refl _ _
          · rw [ret_memory]
            exact hgrown _ _ _

/-! ## Exit -/

/-- `KernelExit` returns the frames and switches. -/
theorem kernelExit_quiet (code : Int) :
    s.memory.free.Quiet (s.kernelExit code).memory := by
  have hfree {s₁ : Kernel} (h : s₁.memory = s.memory) :
      ((s₁.setPfnList (freeAddrSpace (s₁.pcb.userPageTable s.activePCB)
        (s₁.pcb.kernelStackPt s.activePCB) s₁.pfnList)).setTerminated
          s.activePCB).memory = s.memory.free := by
    have htable : s₁.pcb.userPageTable = s.pcb.userPageTable :=
      (congrArg Memory.userPageTable h :)
    have hstack : s₁.pcb.kernelStackPt = s.pcb.kernelStackPt :=
      (congrArg Memory.kernelStackPt h :)
    have hpool : s₁.pfnList = s.pfnList := (congrArg Memory.pfnList h :)
    rw [setTerminated_memory, setPfnList_memory, htable, hstack, hpool, h]
    rfl
  unfold kernelExit
  simp only
  split
  · exact swapProcess_quiet (hfree (by simp)) _ rfl
  · exact swapProcess_quiet (hfree (by simp)) _ rfl

theorem kernelExit_mode (code : Int) : (s.kernelExit code).mode = .kernel := by
  unfold kernelExit
  exact swapProcess_mode _ _

/-! ## Fork -/

/-- Only process `c` and unmapped Region 0 pages have been written. -/
structure Made (m : Memory) (c : PcbPtr) (m' : Memory) : Prop where
  active : m'.active = m.active
  ptbr1 : m'.ptbr1 = m.ptbr1
  kPt : ∀ i, m'.kPt i = m.kPt i ∨
    i ≤ kernelStackBase ∧ (m.kPt i).valid = false
  uctxt : ∀ p, p ≠ c → m'.uctxt p = m.uctxt p
  userContext : ∀ p, p ≠ c → m'.userContext p = m.userContext p
  kernelContext : ∀ p, p ≠ c → m'.kernelContext p = m.kernelContext p
  userPageTable : ∀ p, p ≠ c → m'.userPageTable p = m.userPageTable p
  kernelStackPt : ∀ p, p ≠ c → m'.kernelStackPt p = m.kernelStackPt p

namespace Made

variable {m m' m'' : Memory} {c : PcbPtr}

theorem trans (h : Made m c m') (h' : Made m' c m'') : Made m c m'' where
  active := h'.active.trans h.active
  ptbr1 := h'.ptbr1.trans h.ptbr1
  kPt := fun i => by
    rcases h'.kPt i with hi' | ⟨hle, hinvalid⟩
    · rw [hi']
      exact h.kPt i
    · rcases h.kPt i with hi | hi
      · rw [hi] at hinvalid
        exact .inr ⟨hle, hinvalid⟩
      · exact .inr hi
  uctxt := fun p hp => (h'.uctxt p hp).trans (h.uctxt p hp)
  userContext := fun p hp => (h'.userContext p hp).trans (h.userContext p hp)
  kernelContext := fun p hp =>
    (h'.kernelContext p hp).trans (h.kernelContext p hp)
  userPageTable := fun p hp =>
    (h'.userPageTable p hp).trans (h.userPageTable p hp)
  kernelStackPt := fun p hp =>
    (h'.kernelStackPt p hp).trans (h.kernelStackPt p hp)

end Made

/-- `init_process` fills in a new PCB. -/
theorem initProcess_made {active : Option PcbPtr} {pid : Nat}
    {ctx : UserContext} {c : PcbPtr}
    (h : s.initProcess active pid ctx = some (c, s')) :
    c = s.npcb ∧ s'.npcb = s.npcb + 1 ∧ Made s.memory s.npcb s'.memory ∧
      s'.pcb.userContext s.npcb = ctx := by
  unfold initProcess at h
  simp only at h
  split at h
  · cases h
  · cases h
    exact ⟨rfl, rfl,
      ⟨rfl, rfl, fun _ => .inl rfl, fun _ _ => rfl,
        fun _ hp => upd_other hp _ _, fun _ _ => rfl,
        fun _ hp => upd_other hp _ _, fun _ hp => upd_other hp _ _⟩,
      upd_same _ _ _⟩

theorem setHeapStackIndex_made (child : PcbPtr) (i j : Int) :
    Made s.memory child
      ((s.setHeapIndex child i).setStackIndex child j).memory :=
  ⟨rfl, rfl, fun _ => .inl rfl, fun _ _ => rfl, fun _ _ => rfl,
    fun _ _ => rfl, fun _ _ => rfl, fun _ _ => rfl⟩

theorem setDataTextIndex_made (child : PcbPtr) (i j : Int) :
    Made s.memory child
      ((s.setDataIndex child i).setTextIndex child j).memory :=
  ⟨rfl, rfl, fun _ => .inl rfl, fun _ _ => rfl, fun _ _ => rfl,
    fun _ _ => rfl, fun _ _ => rfl, fun _ _ => rfl⟩

theorem copyIndices_made (child parent : PcbPtr) :
    Made s.memory child (s.copyIndices child parent).memory :=
  (setHeapStackIndex_made child _ _).trans (setDataTextIndex_made child _ _)

theorem setUserPageTable_made (child : PcbPtr) (table : Nat → Pte)
    (pool : List Nat) :
    Made s.memory child
      ((s.setUserPageTable child table).setPfnList pool).memory :=
  ⟨rfl, rfl, fun _ => .inl rfl, fun _ _ => rfl, fun _ _ => rfl,
    fun _ _ => rfl, fun _ hp => upd_other hp _ _, fun _ _ => rfl⟩

/-- The Region 0 page that `KernelFork` and `KCCopy` use is not mapped. -/
theorem reservedKernelIndex_spec {kPt : Nat → Pte} {reserved : Nat}
    (h : reservedKernelIndex kPt = some reserved) :
    reserved ≤ kernelStackBase ∧ (kPt reserved).valid = false := by
  unfold reservedKernelIndex at h
  have hmem := List.mem_of_find?_eq_some h
  have hfound := List.find?_some h
  rw [List.mem_reverse, List.mem_range] at hmem
  exact ⟨Nat.lt_succ_iff.1 hmem, by simpa using hfound⟩

theorem setKPt_made {reserved : Nat} (child : PcbPtr) (pte : Pte)
    (h : reservedKernelIndex s.kPt = some reserved) :
    Made s.memory child (s.setKPt (upd s.kPt reserved pte)).memory where
  active := rfl
  ptbr1 := rfl
  kPt := fun i => by
    by_cases hi : i = reserved
    · subst hi
      exact .inr (reservedKernelIndex_spec h)
    · exact .inl (upd_other hi _ _)
  uctxt := fun _ _ => rfl
  userContext := fun _ _ => rfl
  kernelContext := fun _ _ => rfl
  userPageTable := fun _ _ => rfl
  kernelStackPt := fun _ _ => rfl

/-- The child that `KCCopy` leaves behind. -/
structure ChildReady (m : Memory) (c : PcbPtr) (k : KernelContext)
    (m' : Memory) : Prop where
  context : m'.kernelContext c = k
  uctxt : m'.uctxt c = m.uctxt m.active
  stack : ∀ i, i < kernelStackSize → (m'.kernelStackPt c i).valid = true

theorem kcCopy_made {child : PcbPtr} {k : KernelContext}
    (hlive : (s.kcCopy child k).mode ≠ .undefined) :
    Made s.memory child (s.kcCopy child k).memory ∧
      ChildReady s.memory child k (s.kcCopy child k).memory ∧
      (s.kcCopy child k).memory.userContext = s.pcb.userContext := by
  unfold kcCopy at hlive ⊢
  split at hlive
  · exact absurd rfl hlive
  · rename_i reserved hreserved
    refine ⟨⟨rfl, rfl, fun i => ?_, fun _ hp => upd_other hp _ _,
      fun _ _ => rfl, fun _ hp => upd_other hp _ _, fun _ _ => rfl,
      fun _ hp => upd_other hp _ _⟩, ⟨upd_same _ _ _, upd_same _ _ _,
      fun i hi => ?_⟩, rfl⟩
    · by_cases hi : i = reserved
      · subst hi
        exact .inr (reservedKernelIndex_spec hreserved)
      · exact .inl (upd_other hi _ _)
    · show (upd s.pcb.kernelStackPt child (fun i =>
        if i < kernelStackSize then
          { s.pcb.kernelStackPt child i with valid := true }
        else s.pcb.kernelStackPt child i) child i).valid = true
      rw [upd_same, if_pos hi]

theorem forkReady_made {child : PcbPtr}
    (hlive : (s.forkReady child).mode ≠ .undefined) :
    Made s.memory child (s.forkReady child).memory ∧
      ChildReady s.memory child .kernelFork (s.forkReady child).memory := by
  unfold forkReady at hlive ⊢
  simp only at hlive ⊢
  split at hlive
  · rename_i hundefined
    exact absurd hundefined hlive
  · rename_i hdefined
    obtain ⟨hmade, hchild, -⟩ := kcCopy_made hdefined
    rw [queueAdd_memory] at hmade hchild
    rw [if_neg hdefined, ret_memory]
    exact ⟨hmade, hchild⟩

theorem forkCopy_made {child parent : PcbPtr} {reserved : Nat}
    (hreserved : reservedKernelIndex s.kPt = some reserved)
    (hlive : (s.forkCopy child parent reserved).mode ≠ .undefined) :
    Made s.memory child (s.forkCopy child parent reserved).memory ∧
      (ChildReady s.memory child .kernelFork
          (s.forkCopy child parent reserved).memory ∨
        (s.forkCopy child parent reserved).readyQ = s.readyQ) := by
  unfold forkCopy at hlive ⊢
  split at hlive
  · rename_i table pool mapped hcopy
    have hmade := (setUserPageTable_made (s := s) child table pool).trans
      (setKPt_made child ⟨true, Prot.noXWR, mapped⟩ hreserved)
    exact ⟨hmade, .inr rfl⟩
  · rename_i table pool mapped hcopy
    have hmade := (setUserPageTable_made (s := s) child table pool).trans
      (setKPt_made child invalidPte hreserved)
    obtain ⟨hready, hchild⟩ := forkReady_made hlive
    exact ⟨hmade.trans hready,
      .inl ⟨hchild.context, hchild.uctxt, hchild.stack⟩⟩

theorem kernelFork_made {pid : Nat}
    (hlive : (s.kernelFork pid).mode ≠ .undefined) :
    Made s.memory s.npcb (s.kernelFork pid).memory ∧
      (s.activePCB ≠ s.npcb → ChildReady s.memory s.npcb .kernelFork
          (s.kernelFork pid).memory ∨
        (s.kernelFork pid).readyQ = s.readyQ) := by
  unfold kernelFork at hlive ⊢
  split at hlive
  · exact absurd rfl hlive
  · rename_i child forked hinit
    obtain ⟨rfl, -, hinit', -⟩ := initProcess_made hinit
    have hready : forked.readyQ = s.readyQ := by
      have herase := (initProcess_eraseMemory hinit).2
      exact (congrArg Kernel.readyQ herase :)
    have hmade := hinit'.trans
      (copyIndices_made (s := forked) s.npcb s.activePCB)
    have hcopied : (forked.copyIndices s.npcb s.activePCB).readyQ =
        s.readyQ := by
      have herase := copyIndices_eraseMemory (s := forked) s.npcb s.activePCB
      exact (congrArg Kernel.readyQ herase :).trans hready
    simp only at hlive ⊢
    split at hlive
    · rw [ret_memory]
      exact ⟨hmade, fun _ => .inr hcopied⟩
    · rename_i reserved hreserved
      obtain ⟨hcopy, hchild⟩ := forkCopy_made hreserved hlive
      refine ⟨hmade.trans hcopy, fun hne => ?_⟩
      rcases hchild with hchild | hsame
      · refine .inl ⟨hchild.context, hchild.uctxt.trans ?_, hchild.stack⟩
        rw [hmade.active]
        exact hmade.uctxt _ hne
      · exact .inr (hsame.trans hcopied)

/-! ## Every step -/

/-- Everything a step that does not end the machine can do to memory. -/
inductive MemoryEffect (s : Kernel) : Label → Kernel → Prop where
  | quiet {a : Label} {s' : Kernel} : s.memory.Quiet s'.memory →
      (∀ ctx args, a ≠ .trap ctx (.kernel (.exec args))) →
      (∀ ctx pid, a ≠ .trap ctx (.kernel (.fork pid))) →
      MemoryEffect s a s'
  | brk {ctx : UserContext} {addr : Nat} {s' : Kernel} :
      Rewritten s.memory s.activePCB s'.memory →
      MemoryEffect s (.trap ctx (.kernel (.brk addr))) s'
  | grows {ctx : UserContext} {addr : Nat} {beyondValid : Bool}
      {s' : Kernel} : Rewritten s.memory s.activePCB s'.memory →
      MemoryEffect s (.trap ctx (.memory addr beyondValid)) s'
  | exec {ctx : UserContext} {args : ExecArgs} {code : Int} {s₁ : Kernel} :
      s.kernelExec args = some (code, s₁) → code ≠ Rc.error →
      MemoryEffect s (.trap ctx (.kernel (.exec args)))
        ((s₁.setUctxt s₁.activePCB (s₁.pcb.userContext s₁.activePCB)).ret
          code)
  | ends {a : Label} {code : Int} {s₁ s' : Kernel} : s.ends a = some code →
      Rewritten s.memory s.activePCB s₁.memory →
      s₁.memory.free.Quiet s'.memory → MemoryEffect s a s'
  | forks {ctx : UserContext} {pid : Nat} {s' : Kernel} :
      Made s.memory s.npcb s'.memory →
      (s.activePCB ≠ s.npcb →
        ChildReady s.memory s.npcb .kernelFork s'.memory ∨
          s'.readyQ = s.readyQ) →
      MemoryEffect s (.trap ctx (.kernel (.fork pid))) s'

variable {ctx : UserContext}

theorem execCase_memoryEffect {args : ExecArgs}
    (hlive : (s.execCase args).mode ≠ .undefined) :
    s.MemoryEffect (.trap ctx (.kernel (.exec args))) (s.execCase args) := by
  unfold execCase at hlive ⊢
  split at hlive
  · exact absurd rfl hlive
  · rename_i code s₁ hexec
    split
    · rename_i hcode
      exact .exec hexec hcode
    · rename_i hfails
      have hends : s.ends (.trap ctx (.kernel (.exec args))) =
          some Rc.error := by
        simp only [Kernel.ends, hexec, if_neg hfails]
      refine .ends hends (kernelExec_rewritten hexec) ?_
      rw [← setReg0_memory (s := s₁) s₁.activePCB code]
      exact kernelExit_quiet _

theorem trapMemoryHandler_memoryEffect {addr : Nat} {beyondValid : Bool} :
    s.MemoryEffect (.trap ctx (.memory addr beyondValid))
      (s.trapMemoryHandler addr beyondValid) := by
  unfold trapMemoryHandler
  simp only
  split
  · rename_i hfatal
    have hends : s.ends (.trap ctx (.memory addr beyondValid)) =
        some Rc.error := by
      rw [Kernel.ends, if_pos (show s.FatalFault addr beyondValid from hfatal)]
    exact .ends hends (.refl _ _) (kernelExit_quiet _)
  · split
    · exact .grows (.refl _ _)
    · refine .grows ?_
      rw [toUser_memory]
      exact setUserPageTable_rewritten _ _

theorem handle_memoryEffect {t : Trap}
    (hlive : (s.handle t).mode ≠ .undefined) :
    s.MemoryEffect (.trap ctx t) (s.handle t) := by
  by_cases hmemory : t.usesMemory = false
  · refine .quiet (handle_quiet hmemory) ?_ ?_
    · rintro _ _ ⟨⟩
      cases hmemory
    · rintro _ _ ⟨⟩
      cases hmemory
  · cases t with
    | kernel call =>
        cases call with
        | fork pid =>
            obtain ⟨hmade, hchild⟩ := kernelFork_made hlive
            exact .forks hmade hchild
        | exec args => exact execCase_memoryEffect hlive
        | exit code => exact .ends rfl (.refl _ _) (kernelExit_quiet _)
        | brk addr => exact .brk (kernelBrk_rewritten addr)
        | _ => exact absurd rfl hmemory
    | memory addr beyondValid => exact trapMemoryHandler_memoryEffect
    | _ => exact absurd rfl hmemory

theorem take_memoryEffect {a : Label} (hlive : (s.take a).Live) :
    (s.entered a).MemoryEffect a (s.take a) := by
  have hdefined : (s.take a).mode ≠ .undefined := by
    rcases hlive with h | h
    · rw [h]
      exact nofun
    · rw [h]
      exact nofun
  cases a with
  | trap ctx t => exact handle_memoryEffect hdefined
  | resume => exact .quiet resume_quiet nofun nofun

end Kernel

/-! ## Boot -/

/-- The states that a boot which reaches user mode goes through. -/
structure Boot.Stages (b : Boot) where
  idleMade : Kernel
  idleLoaded : Kernel
  progMade : Kernel
  progLoaded : Kernel
  idleCode : Int
  progCode : Int
  idle : b.setUpGlobals.initProcess none 0 b.uctxt = some (0, idleMade)
  loadIdle : idleMade.loadProgram b.idleFile b.idleArgs 0 =
    some (idleCode, idleLoaded)
  prog : ({ idleLoaded with idlePCB := 0, activePCB := 0 } : Kernel).initProcess
    (some 0) b.progPid b.uctxt = some (1, progMade)
  loadProg : progMade.loadProgram b.progFile b.progArgs 1 =
    some (progCode, progLoaded)
  loaded : progCode ≠ Rc.error

theorem Boot.stages {b : Boot} (h : b.kernelStart.mode = .user) :
    ∃ st : b.Stages, b.kernelStart = Boot.startProg st.progLoaded 0 1 := by
  unfold kernelStart at h ⊢
  split at h
  · cases h
  · rename_i idle s hidle
    unfold startIdle at hidle
    split at hidle
    · cases hidle
    · rename_i p s₁ hinit
      obtain ⟨hp, hnpcb, -, -⟩ := Kernel.initProcess_made hinit
      have hzero : p = 0 := hp
      subst hzero
      split at hidle
      · cases hidle
      · rename_i code s₂ hload
        cases hidle
        have hmade : s₂.npcb = 1 :=
          (Kernel.loadProgram_rewritten hload).npcb.trans hnpcb
        split at h
        · split at h
          · cases h
          · cases h
        · rename_i prog s₃ hprog
          obtain ⟨hone, -, -, -⟩ := Kernel.initProcess_made hprog
          have hprog' : prog = 1 := hone.trans hmade
          subst hprog'
          split at h
          · cases h
          · rename_i code' s₄ hload'
            split at h
            · cases h
            · rename_i hcode
              simp only [if_neg hcode]
              exact ⟨⟨s₁, s₂, s₃, s₄, code, code', hinit, hload, hprog, hload',
                hcode⟩, rfl⟩

/-! ## Runs -/

/--
The invariant rule for properties of memory: a step is known by its effect on
the core and by its effect on memory.
-/
theorem Reachable.memory_invariant {guard : Kernel → Label → Prop}
    {P : Kernel → Prop}
    (hboot : ∀ b : Boot, b.WellFormed → b.kernelStart.mode = .user →
      P b.kernelStart)
    (hstep : ∀ s a r, P s → a.Enabled s → guard s a →
      Kernel.Effect (s.entered a) a r → (s.take a).core = r.core →
      (s.entered a).MemoryEffect a (s.take a) → P (s.take a))
    {s : Kernel} (h : Reachable guard s) (hlive : s.Live) : P s := by
  revert hlive
  refine h.invariant (P := fun s => s.Live → P s) ?_ ?_
  · rintro _ ⟨b, hb, rfl, hmode⟩ _
    exact hboot b hb hmode
  · intro s a s' hreach ih hmeets hstep' hlive
    cases hstep' with
    | take henabled =>
        have hs := Reachable.quiescent hreach henabled.live
        obtain ⟨r, hr, hresult⟩ :=
          Kernel.take_hasEffect hs.sync hs.zero_used henabled hlive
        exact hstep s a r (ih henabled.live) henabled hmeets hr hresult
          (Kernel.take_memoryEffect hlive)

end Yalnix
