import Yalnix.Memory.Conservation
import Yalnix.Memory.MemoryFaults

/-!
# What a step does to frames

Only the active process and the pool exchange frames, except in `Fork`, where a
new process gets frames from the pool.
-/

namespace Yalnix

open Ledger Memory

namespace Kernel

variable {s s' s₁ : Kernel} {p : PcbPtr} {ctx : UserContext}

/-- The frames of the user pages of a process, and the pool. -/
def holding (s : Kernel) (p : PcbPtr) : List Nat :=
  ownedFrames (s.pcb.userPageTable p) ++ s.pfnList

/-- All frames of a process, and the pool. -/
def stock (s : Kernel) (p : PcbPtr) : List Nat :=
  spaceFrames (s.pcb.userPageTable p) (s.pcb.kernelStackPt p) ++ s.pfnList

/-- No page table has changed, and no process has been made. -/
structure SameTables (s s' : Kernel) : Prop where
  npcb : s'.npcb = s.npcb
  userPageTable : s'.pcb.userPageTable = s.pcb.userPageTable
  kernelStackPt : s'.pcb.kernelStackPt = s.pcb.kernelStackPt

/-- Among the page tables only the user page table of `p` has changed. -/
structure OneTable (s : Kernel) (p : PcbPtr) (s' : Kernel) : Prop where
  npcb : s'.npcb = s.npcb
  userPageTable : ∀ q, q ≠ p → s'.pcb.userPageTable q = s.pcb.userPageTable q
  kernelStackPt : s'.pcb.kernelStackPt = s.pcb.kernelStackPt

/-- `free_addr_space` has been called on the tables of `p`, which is dead. -/
structure Freed (s : Kernel) (p : PcbPtr) (s' : Kernel) : Prop
    extends SameTables s s' where
  pfnList : s'.pfnList = freeAddrSpace (s.pcb.userPageTable p)
    (s.pcb.kernelStackPt p) s.pfnList
  terminated : s'.history.terminated p = true

/-- The tables of the new process got their frames from the pool. -/
structure Furnished (s s' : Kernel) : Prop where
  npcb : s'.npcb = s.npcb + 1
  userPageTable : ∀ q, q ≠ s.npcb →
    s'.pcb.userPageTable q = s.pcb.userPageTable q
  kernelStackPt : ∀ q, q ≠ s.npcb →
    s'.pcb.kernelStackPt q = s.pcb.kernelStackPt q
  frames : Conserved (· ≠ 0) s.pfnList (s'.stock s.npcb)

/-- Everything a step that does not end the machine can do to frames. -/
inductive FrameEffect (s : Kernel) : Label → Kernel → Prop where
  | moves {a : Label} {s' : Kernel} : s.ends a = none →
      s.OneTable s.activePCB s' →
      Conserved (· ≠ 0) (s.holding s.activePCB) (s'.holding s.activePCB) →
      FrameEffect s a s'
  | loads {ctx : UserContext} {args : ExecArgs} {code : Int}
      {s₁ s' : Kernel} : s.kernelExec args = some (code, s₁) →
      code ≠ Rc.error → SameTables s₁ s' → s'.pfnList = s₁.pfnList →
      FrameEffect s (.trap ctx (.kernel (.exec args))) s'
  | execFails {ctx : UserContext} {args : ExecArgs} {s₁ s' : Kernel} :
      s.kernelExec args = some (Rc.error, s₁) → s₁.Freed s.activePCB s' →
      FrameEffect s (.trap ctx (.kernel (.exec args))) s'
  | ends {a : Label} {code : Int} {s' : Kernel} : s.ends a = some code →
      (∀ ctx args, a ≠ .trap ctx (.kernel (.exec args))) →
      s.Freed s.activePCB s' → FrameEffect s a s'
  | forks {ctx : UserContext} {pid : Nat} {s' : Kernel} : s.Furnished s' →
      FrameEffect s (.trap ctx (.kernel (.fork pid))) s'

/-! ## Quiet steps -/

theorem conserved_of_tables
    (htable : s'.pcb.userPageTable p = s.pcb.userPageTable p)
    (hpool : s'.pfnList = s.pfnList) :
    Conserved (· ≠ 0) (s.holding p) (s'.holding p) := by
  unfold holding
  rw [htable, hpool]
  exact .refl _

theorem quiet_tables {m m' : Memory} (h : m.Quiet m') :
    m'.npcb = m.npcb ∧ m'.pfnList = m.pfnList ∧
      m'.userPageTable = m.userPageTable ∧
      m'.kernelStackPt = m.kernelStackPt := by
  cases h with
  | keeps => exact ⟨rfl, rfl, rfl, rfl⟩
  | parks => exact ⟨rfl, rfl, rfl, rfl⟩
  | switches next =>
      unfold Memory.switch Memory.reload
      split
      · exact ⟨rfl, rfl, rfl, rfl⟩
      · exact ⟨rfl, rfl, rfl, rfl⟩

theorem quiet_frameEffect {a : Label} (hends : s.ends a = none)
    (h : s.memory.Quiet s'.memory) : s.FrameEffect a s' := by
  obtain ⟨hnpcb, hpool, htable, hstack⟩ := quiet_tables h
  refine .moves hends ⟨hnpcb, fun q _ => congrFun htable q, hstack⟩ ?_
  have htable' : s'.pcb.userPageTable = s.pcb.userPageTable := htable
  exact conserved_of_tables (congrFun htable' _) hpool

theorem freed_of_quiet (h : s.memory.free.Quiet s'.memory)
    (hterminated : s'.history.terminated s.activePCB = true) :
    s.Freed s.activePCB s' := by
  obtain ⟨hnpcb, hpool, htable, hstack⟩ := quiet_tables h
  have hfree : s.memory.free.pfnList = freeAddrSpace
      (s.memory.userPageTable s.memory.active)
      (s.memory.kernelStackPt s.memory.active) s.memory.pfnList := rfl
  exact ⟨⟨hnpcb, htable, hstack⟩, hpool.trans hfree, hterminated⟩

theorem kernelExit_freed (code : Int) :
    s.Freed s.activePCB (s.kernelExit code) :=
  freed_of_quiet (kernelExit_quiet code) (kernelExit_terminated code)

/-! ## Brk and memory traps -/

theorem oneTable_of_rewritten (h : Rewritten s.memory p s'.memory) :
    s.OneTable p s' :=
  ⟨h.npcb, h.userPageTable, h.kernelStackPt⟩

@[simp] theorem ret_holding (result : Int) :
    (s.ret result).holding p = s.holding p := rfl

@[simp] theorem toUser_holding : s.toUser.holding p = s.holding p := rfl

@[simp] theorem setHeapIndex_holding (q : PcbPtr) (i : Int) :
    (s.setHeapIndex q i).holding p = s.holding p := rfl

@[simp] theorem setTable_holding (table : Nat → Pte) (pool : List Nat) :
    ((s.setUserPageTable p table).setPfnList pool).holding p =
      ownedFrames table ++ pool := by
  have htable : upd s.pcb.userPageTable p table p = table := upd_same _ _ _
  exact congrArg (fun t => ownedFrames t ++ pool) htable

theorem grown_conserved {first count : Nat}
    (hin : 0 < count → first + count ≤ userPtSize) :
    Conserved (· ≠ 0) (s.holding p)
      (ownedFrames (growPages first count (s.pcb.userPageTable p)
        s.pfnList).2.1 ++
          (growPages first count (s.pcb.userPageTable p) s.pfnList).2.2) :=
  growPages_conserved hin rfl

theorem shrunk_conserved {first count : Nat}
    (hin : 0 < count → first + count ≤ userPtSize) :
    Conserved (· ≠ 0) (s.holding p)
      (ownedFrames (shrinkPages first count (s.pcb.userPageTable p)
        s.pfnList).1 ++
          (shrinkPages first count (s.pcb.userPageTable p) s.pfnList).2) := by
  cases count with
  | zero => exact .refl _
  | succ count =>
      exact .of_perm (shrinkPages_owned (hin (Nat.succ_pos _)) rfl).symm

theorem kernelBrk_conserved (addr : Nat) :
    Conserved (· ≠ 0) (s.holding s.activePCB)
      ((s.kernelBrk addr).holding s.activePCB) := by
  have hsame : Conserved (· ≠ 0) (s.holding s.activePCB)
      (s.holding s.activePCB) := .refl _
  unfold kernelBrk
  simp only
  split
  · exact hsame
  · split
    · exact hsame
    · split
      · split
        · exact hsame
        · split
          · exact hsame
          · rename_i hinside _
            split
            · rw [ret_holding, setHeapIndex_holding, setTable_holding]
              exact grown_conserved (by omega)
            · rw [ret_holding, setTable_holding]
              exact grown_conserved (by omega)
      · split
        · exact hsame
        · split
          · exact hsame
          · rename_i hinside _
            rw [ret_holding, setHeapIndex_holding, setTable_holding]
            exact shrunk_conserved (by omega)

theorem trapMemoryHandler_conserved {addr : Nat} {beyondValid : Bool}
    (h : ¬ s.FatalFault addr beyondValid) :
    Conserved (· ≠ 0) (s.holding s.activePCB)
      ((s.trapMemoryHandler addr beyondValid).holding s.activePCB) := by
  unfold trapMemoryHandler
  simp only
  rw [if_neg (show ¬ (faultTarget addr < 0 ∨
    s.faultValid (faultTarget addr) beyondValid = true) from h)]
  have hbase : ¬ faultTarget addr < 0 := fun hneg => h (.inl hneg)
  split
  · have hsame : Conserved (· ≠ 0) (s.holding s.activePCB)
        (s.holding s.activePCB) := .refl _
    exact hsame
  · rename_i hinside
    rw [toUser_holding, setTable_holding]
    exact grown_conserved (by omega)

theorem trapMemoryHandler_frameEffect {addr : Nat} {beyondValid : Bool} :
    s.FrameEffect (.trap ctx (.memory addr beyondValid))
      (s.trapMemoryHandler addr beyondValid) := by
  by_cases hfatal : s.FatalFault addr beyondValid
  · have hends : s.ends (.trap ctx (.memory addr beyondValid)) =
        some Rc.error := by
      rw [Kernel.ends, if_pos hfatal]
    have hexec (ctx' : UserContext) (args : ExecArgs) :
        Label.trap ctx (.memory addr beyondValid) ≠
          .trap ctx' (.kernel (.exec args)) := by
      intro heq
      cases heq
    refine .ends hends hexec ?_
    unfold trapMemoryHandler
    simp only
    rw [if_pos (show faultTarget addr < 0 ∨
      s.faultValid (faultTarget addr) beyondValid = true from hfatal)]
    exact kernelExit_freed Rc.error
  · have hends : s.ends (.trap ctx (.memory addr beyondValid)) = none := by
      rw [Kernel.ends, if_neg hfatal]
    refine .moves hends ?_ (trapMemoryHandler_conserved hfatal)
    unfold trapMemoryHandler
    simp only
    rw [if_neg (show ¬ (faultTarget addr < 0 ∨
      s.faultValid (faultTarget addr) beyondValid = true) from hfatal)]
    split
    · exact ⟨rfl, fun _ _ => rfl, rfl⟩
    · exact ⟨rfl, fun _ hq => upd_other hq _ _, rfl⟩

/-! ## Exec -/

theorem execCase_frameEffect {args : ExecArgs}
    (hdefined : (s.execCase args).mode ≠ .undefined) :
    s.FrameEffect (.trap ctx (.kernel (.exec args))) (s.execCase args) := by
  unfold execCase at hdefined ⊢
  split at hdefined
  · exact absurd rfl hdefined
  · rename_i code s₁ hexec
    split
    · rename_i hcode
      exact .loads hexec hcode ⟨rfl, rfl, rfl⟩ rfl
    · rename_i hfails
      rw [not_not.1 hfails] at hexec
      have hactive : s₁.activePCB = s.activePCB :=
        (kernelExec_rewritten hexec).active
      have hfreed := kernelExit_freed (s := s₁.setReg0 s.activePCB code) Rc.error
      refine .execFails hexec ?_
      rw [← hactive] at hfreed ⊢
      exact ⟨⟨hfreed.npcb, hfreed.userPageTable, hfreed.kernelStackPt⟩,
        hfreed.pfnList, hfreed.terminated⟩

/-! ## Fork -/

theorem ownedFrames_empty : ownedFrames (fun _ => invalidPte) = [] := by
  unfold ownedFrames held
  rw [List.filterMap_eq_nil_iff]
  intro i _
  rfl

theorem stock_perm : (s.stock p).Perm
    (framesOf (s.pcb.kernelStackPt p) (List.range kernelStackSize) ++
      s.holding p) := by
  unfold stock spaceFrames holding
  rw [← List.append_assoc]
  exact List.perm_append_comm.append_right _

/-- The frames of the kernel stack do not matter to a loop over user pages. -/
theorem stock_atMost {good : Nat → Prop}
    (hstack : s'.pcb.kernelStackPt p = s.pcb.kernelStackPt p)
    (h : AtMost good (s.holding p) (s'.holding p)) :
    AtMost good (s.stock p) (s'.stock p) := by
  have hbefore : (s.stock p).Perm _ := stock_perm
  have hafter : (s'.stock p).Perm _ := stock_perm
  rw [hstack] at hafter
  exact ((AtMost.of_perm hbefore).trans (h.append_left _)).trans
    (.of_perm hafter.symm)

theorem stock_conserved
    (hstack : s'.pcb.kernelStackPt p = s.pcb.kernelStackPt p)
    (h : Conserved (· ≠ 0) (s.holding p) (s'.holding p)) :
    Conserved (· ≠ 0) (s.stock p) (s'.stock p) :=
  ⟨stock_atMost hstack.symm h.noneMade, stock_atMost hstack h.noneLost⟩

theorem initProcess_stock {active : Option PcbPtr} {pid : Nat}
    {ctx : UserContext} {c : PcbPtr} (hpid : pid ≠ 0)
    (h : s.initProcess active pid ctx = some (c, s')) :
    s'.stock c = s.pfnList := by
  obtain ⟨-, -, -, -, htable, hpool, -⟩ := initProcess_frames hpid h
  unfold stock spaceFrames
  rw [htable, upd_same, ownedFrames_empty, hpool]
  rfl

theorem initProcess_furnished {active : Option PcbPtr} {pid : Nat}
    {ctx : UserContext} {c : PcbPtr} (hpid : pid ≠ 0)
    (h : s.initProcess active pid ctx = some (c, s')) : s.Furnished s' := by
  obtain ⟨rfl, hnpcb, hmade, -⟩ := initProcess_made h
  refine ⟨hnpcb, hmade.userPageTable, hmade.kernelStackPt, ?_⟩
  rw [initProcess_stock hpid h]
  exact .refl _

/-- `KCCopy` marks the stack entries of the child as valid. -/
theorem kcCopy_stock (child : PcbPtr) (k : KernelContext) :
    (s.kcCopy child k).npcb = s.npcb ∧
      (s.kcCopy child k).stock child = s.stock child := by
  unfold kcCopy
  split
  · exact ⟨rfl, rfl⟩
  · rename_i reserved hreserved
    refine ⟨rfl, ?_⟩
    have hstack : framesOf (upd s.pcb.kernelStackPt child (fun i =>
        if i < kernelStackSize then
          { s.pcb.kernelStackPt child i with valid := true }
        else s.pcb.kernelStackPt child i) child)
          (List.range kernelStackSize) =
        framesOf (s.pcb.kernelStackPt child) (List.range kernelStackSize) := by
      apply framesOf_congr
      intro i hi
      rw [upd_same, if_pos (List.mem_range.1 hi)]
    exact congrArg (fun frames => ownedFrames (s.pcb.userPageTable child) ++
      frames ++ s.pfnList) hstack

theorem forkReady_stock (child : PcbPtr) :
    (s.forkReady child).npcb = s.npcb ∧
      (s.forkReady child).stock child = s.stock child := by
  have hcopied := kcCopy_stock (s := s.queueAdd (some .readyQ) child) child
    .kernelFork
  unfold forkReady
  simp only
  split
  · exact hcopied
  · exact hcopied

theorem forkCopy_stock {child parent : PcbPtr} {reserved : Nat}
    (hfresh : ∀ i, (s.pcb.userPageTable child i).valid = false) :
    (s.forkCopy child parent reserved).npcb = s.npcb ∧
      Conserved (· ≠ 0) (s.stock child)
        ((s.forkCopy child parent reserved).stock child) := by
  have hcopied {ok : Bool} {table : Nat → Pte} {pool : List Nat} {mapped : Nat}
      (h : copyUPT (s.pcb.userPageTable parent) (List.range userPtSize)
        (s.pcb.userPageTable child) s.pfnList (s.kPt reserved).pfn =
          (ok, table, pool, mapped)) :
      Conserved (· ≠ 0) (s.stock child)
        (((s.setUserPageTable child table).setPfnList pool).stock child) := by
    refine stock_conserved rfl ?_
    rw [setTable_holding]
    exact copyUPT_conserved List.nodup_range
      (fun i hi => List.mem_range.1 hi) (fun i _ => hfresh i) h
  unfold forkCopy
  split
  · rename_i table pool mapped hcopy
    exact ⟨rfl, hcopied hcopy⟩
  · rename_i table pool mapped hcopy
    have hready (x : Kernel) :
        ((x.setKPt (upd x.kPt reserved invalidPte)).forkReady child).npcb =
            x.npcb ∧
          ((x.setKPt (upd x.kPt reserved invalidPte)).forkReady child).stock
            child = x.stock child := forkReady_stock child
    obtain ⟨hnpcb, hstock⟩ :=
      hready ((s.setUserPageTable child table).setPfnList pool)
    refine ⟨hnpcb, ?_⟩
    simp only [hstock]
    exact hcopied hcopy

theorem kernelFork_furnished {pid : Nat} (hpid : pid ≠ 0)
    (hdefined : (s.kernelFork pid).mode ≠ .undefined) :
    s.Furnished (s.kernelFork pid) := by
  obtain ⟨hmade, -⟩ := kernelFork_made hdefined
  suffices hframes : (s.kernelFork pid).npcb = s.npcb + 1 ∧
      Conserved (· ≠ 0) s.pfnList ((s.kernelFork pid).stock s.npcb) from
    ⟨hframes.1, hmade.userPageTable, hmade.kernelStackPt, hframes.2⟩
  unfold kernelFork at hdefined ⊢
  split at hdefined
  · exact absurd rfl hdefined
  · rename_i child forked hinit
    obtain ⟨rfl, hnpcb, -, -, htable, -, -⟩ := initProcess_frames hpid hinit
    have hstock := initProcess_stock hpid hinit
    have hcopied : (forked.copyIndices s.npcb s.activePCB).stock s.npcb =
        s.pfnList := hstock
    rw [← hcopied]
    simp only
    split
    · exact ⟨hnpcb, .refl _⟩
    · rename_i reserved hreserved
      have hfresh (i : Nat) : ((forked.copyIndices s.npcb
          s.activePCB).pcb.userPageTable s.npcb i).valid = false := by
        show (forked.pcb.userPageTable s.npcb i).valid = false
        rw [htable, upd_same]
        rfl
      have hcopy : ((forked.copyIndices s.npcb s.activePCB).forkCopy s.npcb
          s.activePCB reserved).npcb = _ ∧ _ := forkCopy_stock hfresh
      exact ⟨hcopy.1.trans hnpcb, hcopy.2⟩

/-! ## Every step -/

theorem handle_frameEffect {t : Trap}
    (hpid : ∀ pid, t = .kernel (.fork pid) → pid ≠ 0)
    (hdefined : (s.handle t).mode ≠ .undefined) :
    s.FrameEffect (.trap ctx t) (s.handle t) := by
  by_cases hmemory : t.usesMemory = false
  · refine quiet_frameEffect ?_ (handle_quiet hmemory)
    cases t with
    | kernel call =>
        cases call with
        | exit code => cases hmemory
        | exec args => cases hmemory
        | _ => rfl
    | memory addr beyondValid => cases hmemory
    | _ => rfl
  · cases t with
    | kernel call =>
        cases call with
        | fork pid => exact .forks (kernelFork_furnished (hpid pid rfl) hdefined)
        | exec args => exact execCase_frameEffect hdefined
        | exit code => exact .ends rfl nofun (kernelExit_freed code)
        | brk addr =>
            exact .moves rfl (oneTable_of_rewritten (kernelBrk_rewritten addr))
              (kernelBrk_conserved addr)
        | _ => exact absurd rfl hmemory
    | memory addr beyondValid => exact trapMemoryHandler_frameEffect
    | _ => exact absurd rfl hmemory

theorem take_frameEffect {a : Label} (hused : 0 ∈ s.history.usedPids)
    (henabled : a.Enabled s) (hlive : (s.take a).Live) :
    (s.entered a).FrameEffect a (s.take a) := by
  have hdefined : (s.take a).mode ≠ .undefined := by
    rcases hlive with h | h
    · rw [h]
      exact nofun
    · rw [h]
      exact nofun
  cases a with
  | trap ctx t =>
      refine handle_frameEffect ?_ hdefined
      rintro pid rfl rfl
      exact henabled.2.2 0 rfl hused
  | resume => exact quiet_frameEffect rfl resume_quiet

end Kernel

end Yalnix
