import Yalnix.Memory.Loading
import Yalnix.Memory.PageLoops

/-!
# The user space of one process

A page table with the indices of its segments.  Only `Exec`, `Brk` and memory
traps of a process change its space; every step of another process leaves it
alone.
-/

namespace Yalnix

/-- What `KernelBrk` and `TrapMemoryHandler` know about a process. -/
structure Space where
  table : Nat → Pte
  heapIndex : Int
  stackIndex : Int
  dataIndex : Int

def Memory.space (m : Memory) (p : PcbPtr) : Space :=
  { table := m.userPageTable p
    heapIndex := m.userHeapPtIndex p
    stackIndex := m.userStackPtIndex p
    dataIndex := m.userDataPtIndex p }

def Kernel.space (s : Kernel) (p : PcbPtr) : Space := s.memory.space p

/-- The page a memory trap faults at. -/
def Label.faultPage : Label → Option Int
  | .trap _ (.memory addr _) => some (Kernel.faultTarget addr)
  | _ => none

/-- The page a `Brk` call moves the break to. -/
def Label.brkPage : Label → Option Int
  | .trap _ (.kernel (.brk addr)) => some (Kernel.brkTarget addr)
  | _ => none

def Label.isExec : Label → Bool
  | .trap _ (.kernel (.exec _)) => true
  | _ => false

namespace Memory

variable {m m' : Memory} {p : PcbPtr}

theorem Quiet.space (h : m.Quiet m') (p : PcbPtr) : m'.space p = m.space p := by
  cases h with
  | keeps => rfl
  | parks => rfl
  | switches next =>
      unfold switch reload
      split
      · rfl
      · rfl

theorem Quiet.npcb (h : m.Quiet m') : m'.npcb = m.npcb := by
  cases h with
  | keeps => rfl
  | parks => rfl
  | switches next =>
      unfold switch reload
      split
      · rfl
      · rfl

end Memory

/-- Only process `p` may have got another space, and no PCB is gone. -/
structure SpacesKept (s : Kernel) (p : PcbPtr) (s' : Kernel) : Prop where
  npcb : s.npcb ≤ s'.npcb
  space : ∀ q, q ≠ p → s'.space q = s.space q

namespace SpacesKept

variable {s s' s'' : Kernel} {p : PcbPtr}

theorem refl (s : Kernel) (p : PcbPtr) : SpacesKept s p s :=
  ⟨Nat.le_refl _, fun _ _ => rfl⟩

theorem trans (h : SpacesKept s p s') (h' : SpacesKept s' p s'') :
    SpacesKept s p s'' where
  npcb := Nat.le_trans h.npcb h'.npcb
  space := fun q hq => (h'.space q hq).trans (h.space q hq)

theorem of_memory (h : s'.memory = s.memory) : SpacesKept s p s' where
  npcb := by
    have hnpcb : s'.npcb = s.npcb := (congrArg Memory.npcb h :)
    exact Nat.le_of_eq hnpcb.symm
  space := fun q _ => congrArg (fun m : Memory => m.space q) h

theorem of_quiet (h : s.memory.Quiet s'.memory) : SpacesKept s p s' where
  npcb := Nat.le_of_eq h.npcb.symm
  space := fun q _ => h.space q

end SpacesKept

namespace Kernel

variable {s s' : Kernel} {p : PcbPtr}

/-! ## Loading writes the space it loads into -/

theorem setUserPageTable_kept (table : Nat → Pte) (pool : List Nat) :
    SpacesKept s p ((s.setUserPageTable p table).setPfnList pool) where
  npcb := Nat.le_refl _
  space := fun q hq => by
    have htable : upd s.pcb.userPageTable p table q = s.pcb.userPageTable q :=
      upd_other hq _ _
    exact congrArg (fun t => { s.space q with table := t }) htable

theorem setDataIndex_kept (i : Int) :
    SpacesKept s p (s.setDataIndex p i) where
  npcb := Nat.le_refl _
  space := fun q hq => by
    have hindex : upd s.pcb.userDataPtIndex p i q = s.pcb.userDataPtIndex q :=
      upd_other hq _ _
    exact congrArg (fun j => { s.space q with dataIndex := j }) hindex

theorem setHeapIndex_kept (i : Int) :
    SpacesKept s p (s.setHeapIndex p i) where
  npcb := Nat.le_refl _
  space := fun q hq => by
    have hindex : upd s.pcb.userHeapPtIndex p i q = s.pcb.userHeapPtIndex q :=
      upd_other hq _ _
    exact congrArg (fun j => { s.space q with heapIndex := j }) hindex

theorem setStackIndex_kept (i : Int) :
    SpacesKept s p (s.setStackIndex p i) where
  npcb := Nat.le_refl _
  space := fun q hq => by
    have hindex : upd s.pcb.userStackPtIndex p i q =
        s.pcb.userStackPtIndex q :=
      upd_other hq _ _
    exact congrArg (fun j => { s.space q with stackIndex := j }) hindex

theorem setTextIndex_kept (i : Int) :
    SpacesKept s p (s.setTextIndex p i) :=
  ⟨Nat.le_refl _, fun _ _ => rfl⟩

theorem discardImage_kept (l : Layout) :
    SpacesKept s p (s.discardImage l p) where
  npcb := Nat.le_refl _
  space := (setUserPageTable_kept (s := s) _ s.pfnList).space

theorem loadSegment_kept {first : Int} {count : Nat} {ok : Bool}
    (h : s.loadSegment p first count = some (ok, s')) : SpacesKept s p s' := by
  unfold loadSegment at h
  split at h
  · cases h
  · cases h
    exact setUserPageTable_kept _ _
  · cases h
    exact setUserPageTable_kept _ _

theorem buildImage_kept {l : Layout} {ok : Bool}
    (h : s.buildImage l p = some (ok, s')) : SpacesKept s p s' := by
  have hstart : SpacesKept s p
      ((s.discardImage l p).setTextIndex p l.textPg1) :=
    (discardImage_kept l).trans (setTextIndex_kept _)
  unfold buildImage at h
  simp only at h
  split at h
  · cases h
  · rename_i htext
    cases h
    exact hstart.trans (loadSegment_kept htext)
  · rename_i s₁ htext
    have h₁ := (hstart.trans (loadSegment_kept htext)).trans
      (setDataIndex_kept l.dataPg1)
    split at h
    · cases h
    · rename_i hdata
      cases h
      exact h₁.trans (loadSegment_kept hdata)
    · rename_i s₂ hdata
      have h₂ := ((h₁.trans (loadSegment_kept hdata)).trans
        (setHeapIndex_kept l.heapIndex)).trans (setStackIndex_kept l.stackIndex)
      exact h₂.trans (loadSegment_kept h)

theorem readImage_kept {file : Executable} {li : LoadInfo} {l : Layout}
    {code : Int} (h : s.readImage file li l p = some (code, s')) :
    SpacesKept s p s' := by
  rcases readImage_cases h with ⟨-, rfl, -⟩ | ⟨-, -, rfl⟩
  · exact .refl _ _
  · exact ⟨Nat.le_refl _,
      (setUserPageTable_kept (s := s) _ s.pfnList).space⟩

theorem loadProgram_kept {file : Executable} {args : List (List UInt8)}
    {code : Int} (h : s.loadProgram file args p = some (code, s')) :
    SpacesKept s p s' := by
  rw [loadProgram_eq] at h
  cases haccepted : file.accepted args with
  | none =>
      rw [haccepted] at h
      cases h
      exact .refl _ _
  | some li =>
      rw [haccepted] at h
      simp only [loadImage_eq] at h
      split at h
      · cases h
      · rename_i hbuild
        cases h
        exact buildImage_kept hbuild
      · rename_i s₁ hbuild
        exact (buildImage_kept hbuild).trans (readImage_kept h)

theorem execCase_kept (a : ExecArgs) :
    SpacesKept s s.activePCB (s.execCase a) := by
  unfold execCase
  split
  · exact .of_memory rfl
  · rename_i code s₁ hexec
    have h₁ : SpacesKept s s.activePCB s₁ := by
      unfold kernelExec at hexec
      split at hexec
      · cases hexec
        exact .refl _ _
      · simp only at hexec
        split at hexec
        · cases hexec
        · rename_i hload
          have hkept := loadProgram_kept hload
          split at hexec
          · cases hexec
            exact ⟨hkept.npcb, hkept.space⟩
          · cases hexec
            exact ⟨hkept.npcb, hkept.space⟩
    split
    · exact h₁.trans ⟨Nat.le_refl _, fun _ _ => rfl⟩
    · have hexit := kernelExit_quiet (s := s₁.setReg0 s₁.activePCB code)
        Rc.error
      exact h₁.trans ⟨Nat.le_of_eq hexit.npcb.symm,
        fun q _ => hexit.space q⟩

/-! ## Exit and Fork -/

theorem kernelExit_kept (code : Int) : SpacesKept s p (s.kernelExit code) where
  npcb := Nat.le_of_eq (kernelExit_quiet code).npcb.symm
  space := fun q _ => (kernelExit_quiet code).space q

theorem initProcess_kept {active : Option PcbPtr} {pid : Nat}
    {ctx : UserContext} {c : PcbPtr}
    (h : s.initProcess active pid ctx = some (c, s')) :
    c = s.npcb ∧ SpacesKept s s.npcb s' := by
  unfold initProcess at h
  simp only at h
  split at h
  · cases h
  · cases h
    refine ⟨rfl, Nat.le_succ _, fun q hq => ?_⟩
    unfold space memory Memory.space
    simp only [upd_other hq]

theorem copyIndices_kept (child parent : PcbPtr) :
    SpacesKept s child (s.copyIndices child parent) :=
  (((setHeapIndex_kept _).trans (setStackIndex_kept _)).trans
    (setDataIndex_kept _)).trans (setTextIndex_kept _)

theorem kcCopy_kept (child : PcbPtr) (k : KernelContext) :
    SpacesKept s child (s.kcCopy child k) := by
  unfold kcCopy
  split
  · exact .of_memory rfl
  · exact ⟨Nat.le_refl _, fun _ _ => rfl⟩

theorem forkReady_kept (child : PcbPtr) :
    SpacesKept s child (s.forkReady child) := by
  have hcopy : SpacesKept s child
      ((s.queueAdd (some .readyQ) child).kcCopy child .kernelFork) :=
    (SpacesKept.of_memory (queueAdd_memory _ _)).trans (kcCopy_kept _ _)
  unfold forkReady
  simp only
  split
  · exact hcopy
  · exact hcopy.trans (.of_memory rfl)

theorem forkCopy_kept (child parent : PcbPtr) (reserved : Nat) :
    SpacesKept s child (s.forkCopy child parent reserved) := by
  unfold forkCopy
  split
  · rename_i table pool mapped _
    exact (setUserPageTable_kept table pool).trans
      ⟨Nat.le_refl _, fun _ _ => rfl⟩
  · rename_i table pool mapped _
    have hmapped : SpacesKept s child
        (((s.setUserPageTable child table).setPfnList pool).setKPt
          (upd s.kPt reserved invalidPte)) :=
      (setUserPageTable_kept table pool).trans
        ⟨Nat.le_refl _, fun _ _ => rfl⟩
    exact hmapped.trans (forkReady_kept child)

theorem kernelFork_kept (pid : Nat) :
    SpacesKept s s.npcb (s.kernelFork pid) := by
  unfold kernelFork
  split
  · exact .of_memory rfl
  · rename_i child forked hinit
    obtain ⟨rfl, hkept⟩ := initProcess_kept hinit
    have hcopied := hkept.trans
      (copyIndices_kept (s := forked) s.npcb s.activePCB)
    simp only
    split
    · exact hcopied.trans (.of_memory rfl)
    · exact hcopied.trans (forkCopy_kept _ _ _)

/-! ## Brk and memory traps -/

theorem kernelBrk_kept (addr : Nat) :
    SpacesKept s s.activePCB (s.kernelBrk addr) := by
  unfold kernelBrk
  simp only
  split
  · exact .of_memory rfl
  · split
    · exact .of_memory rfl
    · split
      · split
        · exact .of_memory rfl
        · split
          · exact .of_memory rfl
          · split
            · exact (setUserPageTable_kept _ _).trans
                ((setHeapIndex_kept _).trans (.of_memory (ret_memory _)))
            · exact (setUserPageTable_kept _ _).trans
                (.of_memory (ret_memory _))
      · split
        · exact .of_memory rfl
        · split
          · exact .of_memory rfl
          · exact (setUserPageTable_kept _ _).trans
              ((setHeapIndex_kept _).trans (.of_memory (ret_memory _)))

theorem trapMemoryHandler_kept (addr : Nat) (beyondValid : Bool) :
    SpacesKept s s.activePCB (s.trapMemoryHandler addr beyondValid) := by
  unfold trapMemoryHandler
  simp only
  split
  · exact kernelExit_kept _
  · split
    · exact .of_memory rfl
    · exact (setUserPageTable_kept _ _).trans (.of_memory toUser_memory)

/-! ## Every step -/

/-- A step writes at most the space of the active process, or of a new one. -/
theorem take_kept (a : Label) :
    SpacesKept s s.activePCB (s.take a) ∨ SpacesKept s s.npcb (s.take a) := by
  cases a with
  | resume => exact .inl (.of_quiet resume_quiet)
  | trap ctx t =>
      have henter (q : PcbPtr) : SpacesKept s q (s.enter ctx) :=
        ⟨Nat.le_refl _, fun _ _ => rfl⟩
      by_cases hquiet : t.usesMemory = false
      · exact .inl ((henter _).trans (.of_quiet (handle_quiet hquiet)))
      · cases t with
        | kernel call =>
            cases call with
            | fork pid => exact .inr ((henter _).trans (kernelFork_kept pid))
            | exec args => exact .inl ((henter _).trans (execCase_kept args))
            | exit code => exact .inl ((henter _).trans (kernelExit_kept code))
            | brk addr => exact .inl ((henter _).trans (kernelBrk_kept addr))
            | _ => exact absurd rfl hquiet
        | memory addr beyondValid =>
            have hkept := trapMemoryHandler_kept (s := s.enter ctx) addr
              beyondValid
            exact .inl ((henter _).trans hkept)
        | _ => exact absurd rfl hquiet

theorem take_npcb_le (a : Label) : s.npcb ≤ (s.take a).npcb := by
  rcases take_kept (s := s) a with h | h
  · exact h.npcb
  · exact h.npcb

theorem run_npcb_le (labels : List Label) : s.npcb ≤ (s.run labels).npcb := by
  induction labels generalizing s with
  | nil => exact Nat.le_refl _
  | cons a rest ih => exact Nat.le_trans (take_npcb_le a) ih

/-- The space of a process changes by its own `Exec`, `Brk` and memory traps
only. -/
theorem take_space {a : Label} (hp : p < s.npcb)
    (h : s.activePCB ≠ p ∨
      a.faultPage = none ∧ a.brkPage = none ∧ a.isExec = false) :
    (s.take a).space p = s.space p := by
  have hold : p ≠ s.npcb := Nat.ne_of_lt hp
  rcases h with hother | ⟨hfault, hbrk, hexec⟩
  · rcases take_kept (s := s) a with hkept | hkept
    · exact hkept.space p (Ne.symm hother)
    · exact hkept.space p hold
  · cases a with
    | resume => exact resume_quiet.space p
    | trap ctx t =>
        by_cases hquiet : t.usesMemory = false
        · exact (handle_quiet (s := s.enter ctx) hquiet).space p
        · cases t with
          | kernel call =>
              cases call with
              | fork pid =>
                  exact (kernelFork_kept (s := s.enter ctx) pid).space p hold
              | exec args => cases hexec
              | exit code =>
                  exact (kernelExit_quiet (s := s.enter ctx) code).space p
              | brk addr => cases hbrk
              | _ => exact absurd rfl hquiet
          | memory addr beyondValid => cases hfault
          | _ => exact absurd rfl hquiet

theorem tick_space (hp : p < s.npcb) : (s.run tick).space p = s.space p := by
  have hclock : (s.take (.trap ⟨0, 0⟩ .clock)).space p = s.space p :=
    take_space hp (.inr ⟨rfl, rfl, rfl⟩)
  have hresume := take_space (s := s.take (.trap ⟨0, 0⟩ .clock))
    (a := .resume) (Nat.lt_of_lt_of_le hp (take_npcb_le _))
    (.inr ⟨rfl, rfl, rfl⟩)
  exact hresume.trans hclock

end Kernel

/-! ## What Brk and a memory trap do to a space -/

/-- The outcomes of `KernelBrk` for a target page; the flag tells success. -/
inductive BrkSpace (x : Space) (target : Int) : Bool → Space → Prop where
  | refused : BrkSpace x target false x
  | outOfFrames {table : Nat → Pte} {pool rest : List Nat} :
      0 ≤ x.heapIndex → x.heapIndex < target →
      growPages x.heapIndex.toNat (target - x.heapIndex).toNat x.table pool =
        (false, table, rest) →
      BrkSpace x target false { x with table := table }
  | grown {table : Nat → Pte} {pool rest : List Nat} :
      0 ≤ x.heapIndex → x.heapIndex < target →
      (∀ i : Nat, x.heapIndex ≤ i → (i : Int) < target →
        (x.table i).valid = false) →
      growPages x.heapIndex.toNat (target - x.heapIndex).toNat x.table pool =
        (true, table, rest) →
      BrkSpace x target true { x with table := table, heapIndex := target }
  | shrunk {table : Nat → Pte} {pool rest : List Nat} :
      target ≤ x.heapIndex → (target < x.heapIndex → 0 ≤ target) →
      shrinkPages target.toNat (x.heapIndex - target).toNat x.table pool =
        (table, rest) →
      BrkSpace x target true { x with table := table, heapIndex := target }

/-- The outcomes of `TrapMemoryHandler` for a fault page, with the frame pool;
the flag tells whether the process goes on. -/
inductive FaultSpace (x : Space) (pool : List Nat) (target : Int) :
    Bool → Space → Prop where
  | unhandled : FaultSpace x pool target false x
  | grown {ok : Bool} {table : Nat → Pte} {rest : List Nat} : 0 ≤ target →
      (target < userPtSize → (x.table target.toNat).valid = false) →
      (target < x.stackIndex → x.stackIndex ≤ userPtSize) →
      growPages target.toNat (x.stackIndex - target).toNat x.table pool =
        (ok, table, rest) →
      FaultSpace x pool target true { x with table := table }

/-- `Brk` has returned `0`. -/
def Kernel.Succeeded (s : Kernel) (p : PcbPtr) : Prop :=
  s.mode = .user ∧ s.reg0 p = 0

instance (s : Kernel) (p : PcbPtr) : Decidable (s.Succeeded p) :=
  inferInstanceAs (Decidable (_ ∧ _))

namespace Kernel

variable {s : Kernel} {p : PcbPtr}

theorem any_range_eq_false {first count : Nat} {P : Nat → Bool}
    (h : ¬ ((List.range count).any fun i => P (first + i)) = true) {i : Nat}
    (hfirst : first ≤ i) (hi : i < first + count) : P i = false := by
  rw [← Bool.not_eq_true]
  intro hP
  apply h
  rw [List.any_eq_true]
  refine ⟨i - first, List.mem_range.2 (by omega), ?_⟩
  rwa [Nat.add_sub_cancel' hfirst]

theorem ret_succeeded {result : Int} (hp : s.activePCB = p) :
    (s.ret result).Succeeded p ↔ result = 0 := by
  have hreg : (s.ret result).reg0 p = result := by
    rw [← hp]
    exact upd_same _ _ _
  constructor
  · intro h
    exact hreg.symm.trans h.2
  · intro h
    exact ⟨rfl, hreg.trans h⟩

theorem brkSpace_ret {x y : Space} {target result : Int} {ok : Bool}
    (hp : s.activePCB = p) (hok : result = 0 ↔ ok = true)
    (hspace : s.space p = y) (h : BrkSpace x target ok y) :
    BrkSpace x target (decide ((s.ret result).Succeeded p))
      ((s.ret result).space p) := by
  have hflag : decide ((s.ret result).Succeeded p) = ok := by
    rw [Bool.eq_iff_iff, decide_eq_true_iff, ret_succeeded hp, hok]
  rw [hflag]
  exact hspace ▸ h

/-- The space after the table and the pool have been written. -/
theorem written_space (table : Nat → Pte) (pool : List Nat) :
    ((s.setUserPageTable p table).setPfnList pool).space p =
      { s.space p with table := table } := by
  unfold space memory Memory.space
  simp [setUserPageTable, setPfnList, setPcb]

theorem moved_space (table : Nat → Pte) (pool : List Nat) (target : Int) :
    (((s.setUserPageTable p table).setPfnList pool).setHeapIndex p
      target).space p =
      { s.space p with table := table, heapIndex := target } := by
  unfold space memory Memory.space
  simp [setUserPageTable, setPfnList, setHeapIndex, setPcb]

theorem kernelBrk_space (addr : Nat) :
    BrkSpace (s.space s.activePCB) (brkTarget addr)
      (decide ((s.kernelBrk addr).Succeeded s.activePCB))
      ((s.kernelBrk addr).space s.activePCB) := by
  have hrefused : BrkSpace (s.space s.activePCB) (brkTarget addr)
      (decide ((s.ret Rc.error).Succeeded s.activePCB))
      ((s.ret Rc.error).space s.activePCB) :=
    brkSpace_ret rfl (by decide) rfl .refused
  have hundefined : BrkSpace (s.space s.activePCB) (brkTarget addr)
      (decide (s.toUndefined.Succeeded s.activePCB))
      (s.toUndefined.space s.activePCB) := by
    have hfails : ¬ s.toUndefined.Succeeded s.activePCB := fun h => nomatch h.1
    rw [decide_eq_false hfails]
    exact .refused
  unfold kernelBrk
  simp only
  split
  · exact hrefused
  · split
    · exact hrefused
    · split
      · rename_i hgrows
        split
        · exact hundefined
        · rename_i hinside
          have hheap : 0 ≤ s.pcb.userHeapPtIndex s.activePCB := by omega
          split
          · exact hrefused
          · rename_i hfree
            have hall : ∀ i : Nat, s.pcb.userHeapPtIndex s.activePCB ≤ i →
                (i : Int) < brkTarget addr →
                (s.pcb.userPageTable s.activePCB i).valid = false := by
              intro i hi hlt
              exact any_range_eq_false
                (P := fun i => (s.pcb.userPageTable s.activePCB i).valid)
                hfree (by omega) (by omega)
            generalize hgrown : growPages
              (s.pcb.userHeapPtIndex s.activePCB).toNat
              (brkTarget addr - s.pcb.userHeapPtIndex s.activePCB).toNat
              (s.pcb.userPageTable s.activePCB) s.pfnList = grown
            obtain ⟨ok, table, rest⟩ := grown
            cases ok with
            | true =>
                exact brkSpace_ret rfl (by decide) (moved_space _ _ _)
                  (.grown hheap hgrows hall hgrown)
            | false =>
                exact brkSpace_ret rfl (by decide) (written_space _ _)
                  (.outOfFrames hheap hgrows hgrown)
      · rename_i hshrinks
        split
        · exact hundefined
        · rename_i hinside
          split
          · exact hrefused
          · have hpos : brkTarget addr < s.pcb.userHeapPtIndex s.activePCB →
                0 ≤ brkTarget addr := by omega
            generalize hshrunk : shrinkPages (brkTarget addr).toNat
              (s.pcb.userHeapPtIndex s.activePCB - brkTarget addr).toNat
              (s.pcb.userPageTable s.activePCB) s.pfnList = shrunk
            obtain ⟨table, rest⟩ := shrunk
            exact brkSpace_ret rfl (by decide) (moved_space _ _ _)
              (.shrunk (Int.not_lt.1 hshrinks) hpos hshrunk)

theorem trapMemoryHandler_space {addr : Nat} {beyondValid : Bool}
    {r : Kernel} (h : s.trapMemoryHandler addr beyondValid = r) :
    FaultSpace (s.space s.activePCB) s.pfnList (faultTarget addr)
      (decide (r.mode = .user)) (r.space s.activePCB) := by
  unfold trapMemoryHandler at h
  simp only at h
  split at h
  · have hmode : (s.kernelExit Rc.error).mode ≠ .user := by
      rw [kernelExit_mode]
      exact nofun
    have hspace : (s.kernelExit Rc.error).space s.activePCB =
        s.space s.activePCB := (kernelExit_quiet Rc.error).space _
    rw [← h, decide_eq_false hmode, hspace]
    exact .unhandled
  · rename_i hfatal
    have hcontinues : 0 ≤ faultTarget addr ∧
        ¬ s.faultValid (faultTarget addr) beyondValid = true := by
      rw [not_or, Int.not_lt] at hfatal
      exact hfatal
    split at h
    · have hmode : s.toUndefined.mode ≠ .user := nofun
      rw [← h, decide_eq_false hmode]
      exact .unhandled
    · rename_i hinside
      have hstack : faultTarget addr <
          s.pcb.userStackPtIndex s.activePCB →
          s.pcb.userStackPtIndex s.activePCB ≤ userPtSize := by omega
      have hfree : faultTarget addr < userPtSize →
          (s.pcb.userPageTable s.activePCB (faultTarget addr).toNat).valid =
            false := by
        intro hlt
        have hinvalid := hcontinues.2
        rw [faultValid, if_neg (Int.not_le.2 hlt)] at hinvalid
        exact Bool.eq_false_iff.2 hinvalid
      generalize hgrown : growPages (faultTarget addr).toNat
        (s.pcb.userStackPtIndex s.activePCB - faultTarget addr).toNat
        (s.pcb.userPageTable s.activePCB) s.pfnList = grown at h
      obtain ⟨ok, table, rest⟩ := grown
      have hspace : r.space s.activePCB =
          { s.space s.activePCB with table := table } := by
        rw [← h]
        exact written_space (s := s) table rest
      have hmode : r.mode = .user := by
        rw [← h]
        rfl
      rw [decide_eq_true hmode, hspace]
      exact .grown hcontinues.1 hfree hstack hgrown

theorem take_brk_space {a : Label} {target : Int} (hp : s.activePCB = p)
    (hbrk : a.brkPage = some target) :
    BrkSpace (s.space p) target (decide ((s.take a).Succeeded p))
      ((s.take a).space p) := by
  subst hp
  cases a with
  | resume => cases hbrk
  | trap ctx t =>
      cases t with
      | kernel call =>
          cases call with
          | brk addr =>
              have htarget : brkTarget addr = target := Option.some.inj hbrk
              rw [← htarget]
              exact kernelBrk_space (s := s.enter ctx) addr
          | _ => cases hbrk
      | _ => cases hbrk

theorem take_fault_space {a : Label} {target : Int} (hp : s.activePCB = p)
    (hfault : a.faultPage = some target) :
    FaultSpace (s.space p) s.pfnList target
      (decide ((s.take a).mode = .user)) ((s.take a).space p) := by
  subst hp
  cases a with
  | resume => cases hfault
  | trap ctx t =>
      cases t with
      | kernel call => cases hfault
      | memory addr beyondValid =>
          have htarget : faultTarget addr = target := Option.some.inj hfault
          rw [← htarget]
          have htaken : (s.enter ctx).trapMemoryHandler addr beyondValid =
              s.take (.trap ctx (.memory addr beyondValid)) := rfl
          have hspace := trapMemoryHandler_space htaken
          exact hspace
      | _ => cases hfault

end Kernel

end Yalnix
