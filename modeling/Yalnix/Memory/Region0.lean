import Yalnix.Kernel.PhysicalMemory
import Yalnix.Memory.UserSpace

/-!
# The kernel's own memory stays where it is

`SetKernelBrk` trusts the frame number in an invalid entry, and `Fork`
overwrites the one of the entry it copies through.  The break stays two pages
below the kernel stack, and the search of `Fork` ends one page below it.
-/

namespace Yalnix

open Kernel

/-- The page just below the kernel stack. -/
def reservedPage : Nat := kernelStackBase - 1

/-! ## The kernel heap -/

/-- Only invalid entries below the reserved page have become valid. -/
def HeapGrown (kPt kPt' : Nat → Pte) : Prop :=
  ∀ i, kPt' i = kPt i ∨
    i < reservedPage ∧ (kPt i).valid = false ∧
      kPt' i = ⟨true, Prot.noXWR, (kPt i).pfn⟩

namespace HeapGrown

variable {kPt kPt' kPt'' : Nat → Pte}

theorem refl (kPt : Nat → Pte) : HeapGrown kPt kPt := fun _ => .inl rfl

theorem trans (h : HeapGrown kPt kPt') (h' : HeapGrown kPt' kPt'') :
    HeapGrown kPt kPt'' := by
  intro i
  rcases h' i with hsame | ⟨hlt, hinvalid, hnew⟩
  · rw [hsame]
    exact h i
  · rcases h i with hsame | ⟨_, _, hold⟩
    · rw [hsame] at hinvalid hnew
      exact .inr ⟨hlt, hinvalid, hnew⟩
    · rw [hold] at hinvalid
      cases hinvalid

theorem pfn (h : HeapGrown kPt kPt') (i : Nat) : (kPt' i).pfn = (kPt i).pfn := by
  rcases h i with hsame | ⟨_, _, hnew⟩
  · rw [hsame]
  · rw [hnew]

theorem above (h : HeapGrown kPt kPt') {i : Nat} (hi : reservedPage ≤ i) :
    kPt' i = kPt i := by
  rcases h i with hsame | ⟨hlt, _⟩
  · exact hsame
  · omega

theorem of_valid (h : HeapGrown kPt kPt') {i : Nat}
    (hvalid : (kPt i).valid = true) : kPt' i = kPt i := by
  rcases h i with hsame | ⟨_, hinvalid, _⟩
  · exact hsame
  · rw [hvalid] at hinvalid
    cases hinvalid

/-- Both tables are written alike. -/
theorem upd (h : HeapGrown kPt kPt') (page : Nat) (pte : Pte) :
    HeapGrown (upd kPt page pte) (Yalnix.upd kPt' page pte) := by
  intro i
  by_cases hi : i = page
  · subst hi
    rw [upd_same, upd_same]
    exact .inl rfl
  · rw [upd_other hi, upd_other hi]
    exact h i

end HeapGrown

/-- `SetKernelBrk` validates pages below the reserved page only. -/
theorem KernelHeap.setKernelBrk_grown (h : KernelHeap) (addr : Nat) :
    HeapGrown h.kPt (h.setKernelBrk addr).2.kPt := by
  unfold setKernelBrk
  split
  · exact .refl _
  · rename_i haccepted
    split
    · intro i
      simp only [validatePages_apply]
      split
      · rename_i hin
        refine .inr ⟨?_, hin.2.2, rfl⟩
        have hstack : addr < kernelStackBase * pageSize := by
          unfold kernelStackAddr at haccepted
          omega
        have hpage : addr / pageSize < kernelStackBase :=
          Nat.div_lt_of_lt_mul (by rwa [Nat.mul_comm])
        unfold reservedPage
        omega
      · exact .inl rfl
    · split
      · exact .refl _
      · exact .refl _

theorem KernelHeap.setKernelBrks_grown (h : KernelHeap) (addrs : List Nat) :
    HeapGrown h.kPt (h.setKernelBrks addrs).kPt := by
  induction addrs generalizing h with
  | nil => exact .refl _
  | cons addr addrs ih =>
      exact (h.setKernelBrk_grown addr).trans (ih _)

/-! ## Region 0 -/

/-- Region 0 at every return to user mode. -/
structure Region0 (kPt : Nat → Pte) : Prop where
  identity : ∀ i, i < reservedPage → (kPt i).pfn = i
  reserved : kPt reservedPage = invalidPte
  stack : ∀ i, i < kernelStackSize → (kPt (kernelStackBase + i)).valid = true

theorem Region0.upd_reserved {kPt : Nat → Pte} (h : Region0 kPt) :
    upd kPt reservedPage invalidPte = kPt := by
  rw [← h.reserved]
  exact Function.update_eq_self _ _

/-- The search finds the first invalid page below a mapped stack base. -/
theorem reservedKernelIndex_eq {kPt : Nat → Pte}
    (hbase : (kPt kernelStackBase).valid = true)
    (hreserved : (kPt reservedPage).valid = false) :
    reservedKernelIndex kPt = some reservedPage := by
  have hrange : (List.range (kernelStackBase + 1)).reverse =
      kernelStackBase :: reservedPage :: (List.range reservedPage).reverse := by
    have hpage : kernelStackBase = reservedPage + 1 := rfl
    rw [List.range_succ, List.reverse_append]
    rw [hpage, List.range_succ, List.reverse_append]
    rfl
  unfold reservedKernelIndex
  rw [hrange]
  simp [hbase, hreserved]

namespace Region0

variable {kPt kPt' : Nat → Pte}

theorem search (h : Region0 kPt) :
    reservedKernelIndex kPt = some reservedPage := by
  apply reservedKernelIndex_eq
  · exact h.stack 0 Nat.two_pos
  · rw [h.reserved]
    rfl

theorem grown (h : Region0 kPt) (hgrown : HeapGrown kPt kPt') :
    Region0 kPt' where
  identity := fun i hi => by
    rw [hgrown.pfn]
    exact h.identity i hi
  reserved := by
    rw [hgrown.above (Nat.le_refl _)]
    exact h.reserved
  stack := fun i hi => by
    rw [hgrown.above]
    · exact h.stack i hi
    · unfold reservedPage
      omega

/-- Every mapped page below the stack is its own frame. -/
theorem valid_identity (h : Region0 kPt) {i : Nat} (hi : i < kernelStackBase)
    (hvalid : (kPt i).valid = true) : (kPt i).pfn = i := by
  have hcases : i < reservedPage ∨ i = reservedPage := by
    unfold reservedPage
    omega
  rcases hcases with hlt | rfl
  · exact h.identity i hlt
  · rw [h.reserved] at hvalid
    cases hvalid

end Region0

/-! ## Fork copies through the reserved page -/

section Copy

variable {Page : Type*} {uPt1 region1 : Nat → Pte} {calls : Nat → List Nat}

/-- Off the reserved page, the loop only lets the heap grow; the tables and the
pool are those of `CopyUPT`. -/
theorem copyUPTPages_kernel {pages : List Nat} {c c' : CopyState Page}
    {reserved : Nat} {flag : Bool} (hvalid : (c.kPt reserved).valid = true)
    (h : copyUPTPages uPt1 region1 reserved calls pages c =
      some (flag, c')) :
    copyUPT uPt1 pages c.uPt2 c.pool (c.kPt reserved).pfn =
        (flag, c'.uPt2, c'.pool, (c'.kPt reserved).pfn) ∧
      HeapGrown (upd c.kPt reserved invalidPte)
        (upd c'.kPt reserved invalidPte) := by
  induction pages generalizing c with
  | nil =>
      cases h
      exact ⟨rfl, .refl _⟩
  | cons i pages ih =>
      rw [copyUPTPages] at h
      rw [copyUPT]
      split at h
      · rename_i hmapped
        rw [if_pos hmapped]
        rcases halloc : allocatePFN c.pool with ⟨_ | pfn, pool⟩
        · simp only [halloc] at h
          cases h
          exact ⟨rfl, .refl _⟩
        · simp only [halloc] at h ⊢
          split at h
          · cases h
          · rename_i ram hcopy
            have hgrown := KernelHeap.setKernelBrks_grown c.heap (calls i)
            have htemporary : (upd (c.heap.setKernelBrks (calls i)).kPt
                reserved
                { (c.heap.setKernelBrks (calls i)).kPt reserved with
                  pfn := pfn } reserved).valid = true := by
              rw [upd_same, hgrown.of_valid hvalid]
              exact hvalid
            obtain ⟨hcopied, hrest⟩ := ih htemporary h
            simp only [upd_same] at hcopied
            refine ⟨hcopied, ?_⟩
            have hfirst := hgrown.upd reserved invalidPte
            simp only [upd_upd] at hrest
            exact hfirst.trans hrest
      · rename_i hunmapped
        rw [if_neg hunmapped]
        exact ih hvalid h

theorem copyStackPages_kernel {reserved : Nat} {pages : List Nat}
    {dst dst' kPt kPt' : Nat → Pte} {ram ram' : Nat → Page}
    (h : copyStackPages reserved pages dst kPt ram = some (dst', kPt', ram')) :
    (∀ i, dst' i = if i ∈ pages then { dst i with valid := true } else dst i) ∧
      upd kPt' reserved invalidPte = upd kPt reserved invalidPte := by
  induction pages generalizing dst kPt ram with
  | nil =>
      cases h
      exact ⟨fun i => rfl, rfl⟩
  | cons j pages ih =>
      rw [copyStackPages] at h
      simp only at h
      split at h
      · cases h
      · obtain ⟨hdst, hkPt⟩ := ih h
        refine ⟨fun i => ?_, ?_⟩
        · rw [hdst]
          by_cases hij : i = j
          · subst hij
            simp
          · simp [hij]
        · rw [hkPt, upd_upd]

end Copy

/-! ## Fork as a whole -/

namespace Kernel

theorem initProcess_kPt {s s' : Kernel} {active : Option PcbPtr} {pid : Nat}
    {ctx : UserContext} {c : PcbPtr}
    (h : s.initProcess active pid ctx = some (c, s')) :
    s'.kPt = s.kPt ∧ s'.activePCB = s.activePCB := by
  unfold initProcess at h
  simp only at h
  split at h
  · cases h
  · cases h
    exact ⟨rfl, rfl⟩

/-- `KCCopy` reads and writes no other entry of Region 0. -/
theorem kcCopy_setKPt {s : Kernel} {kPt : Nat → Pte} (h : Region0 s.kPt)
    (h' : Region0 kPt) (child : PcbPtr) (k : KernelContext) :
    (s.setKPt kPt).kcCopy child k = (s.kcCopy child k).setKPt kPt := by
  have hsearch : reservedKernelIndex (s.setKPt kPt).kPt = some reservedPage :=
    h'.search
  unfold kcCopy
  rw [hsearch, h.search]
  show Kernel.setReg0 (Kernel.setUctxt (Kernel.setKPt _
    (upd kPt reservedPage invalidPte)) _ _) _ _ = _
  rw [h'.upd_reserved]
  rfl

end Kernel

namespace Store

variable {Page : Type*} {x : Store Page} {child : PcbPtr} {own : Nat → Page}

theorem setKernelBrks_kernel (x : Store Page) (addrs : List Nat) :
    ∃ kPt, HeapGrown x.kernel.kPt kPt ∧
      (x.setKernelBrks addrs).kernel = x.kernel.setKPt kPt ∧
      (x.setKernelBrks addrs).picked = x.picked :=
  ⟨_, KernelHeap.setKernelBrks_grown ⟨x.kernel.kPt, x.kernelBrk, true⟩ addrs,
    rfl, rfl⟩

theorem kcCopy_kernel {k : KernelContext}
    (hlive : (x.kcCopy child k own).kernel.mode ≠ .undefined) :
    ∃ reserved, reservedKernelIndex x.kernel.kPt = some reserved ∧
      (x.kcCopy child k own).kernel = x.kernel.kcCopy child k ∧
      (x.kcCopy child k own).picked = reserved :: x.picked := by
  unfold kcCopy at hlive ⊢
  unfold Kernel.kcCopy
  cases hsearch : reservedKernelIndex x.kernel.kPt with
  | none =>
      simp only [hsearch] at hlive
      exact absurd rfl hlive
  | some reserved =>
      simp only [hsearch] at hlive ⊢
      refine ⟨reserved, rfl, ?_⟩
      split at hlive
      · exact absurd rfl hlive
      · rename_i dst kPt ram hcopy
        obtain ⟨hdst, hkPt⟩ := copyStackPages_kernel hcopy
        have hstack : dst = fun i =>
            if i < kernelStackSize then
              { x.kernel.pcb.kernelStackPt child i with valid := true }
            else x.kernel.pcb.kernelStackPt child i := by
          funext i
          rw [hdst]
          simp only [List.mem_range]
        rw [upd_upd] at hkPt
        rw [hkPt, hstack]
        exact ⟨rfl, rfl⟩

theorem forkReady_kernel {s : Kernel} {kPt : Nat → Pte}
    (hx : x.kernel = s.setKPt kPt) (h : Region0 s.kPt) (h' : Region0 kPt)
    {late : List Nat}
    (hlive : (x.forkReady child late own).kernel.mode ≠ .undefined) :
    ∃ kPt', HeapGrown kPt kPt' ∧
      (x.forkReady child late own).kernel =
        (s.forkReady child).setKPt kPt' ∧
      (x.forkReady child late own).picked = reservedPage :: x.picked := by
  have hready : x.kernel.queueAdd (some .readyQ) child =
      (s.queueAdd (some .readyQ) child).setKPt kPt := by
    rw [hx]
    rfl
  obtain ⟨kPt', hgrown, hkernel, hpicked⟩ := setKernelBrks_kernel
    (x.withKernel ((s.queueAdd (some .readyQ) child).setKPt kPt)) late
  have hkernel : ((x.withKernel ((s.queueAdd (some .readyQ)
      child).setKPt kPt)).setKernelBrks late).kernel =
      (s.queueAdd (some .readyQ) child).setKPt kPt' := hkernel
  have hregion : Region0 kPt' := h'.grown hgrown
  have hregion' : Region0 ((x.withKernel ((s.queueAdd (some .readyQ)
      child).setKPt kPt)).setKernelBrks late).kernel.kPt := by
    rw [hkernel]
    exact hregion
  unfold forkReady at hlive ⊢
  simp only [hready] at hlive ⊢
  split at hlive
  · rename_i hundefined
    exact absurd hundefined hlive
  · rename_i hdefined
    rw [if_neg hdefined]
    obtain ⟨reserved, hsearch, hcopied, hpicked'⟩ := kcCopy_kernel hdefined
    rw [hregion'.search] at hsearch
    cases hsearch
    have hqueued : Region0 (s.queueAdd (some .readyQ) child).kPt := h
    have hcoarse : (((x.withKernel ((s.queueAdd (some .readyQ)
        child).setKPt kPt)).setKernelBrks late).kcCopy child .kernelFork
          own).kernel =
        ((s.queueAdd (some .readyQ) child).kcCopy child .kernelFork).setKPt
          kPt' := by
      rw [hcopied, hkernel]
      exact kcCopy_setKPt hqueued hregion child .kernelFork
    refine ⟨kPt', hgrown, ?_, ?_⟩
    · have hmode : ((s.queueAdd (some .readyQ) child).kcCopy child
          .kernelFork).mode ≠ .undefined := by
        rw [hcoarse] at hdefined
        exact hdefined
      unfold Kernel.forkReady
      simp only
      rw [if_neg hmode, hcoarse]
      rfl
    · exact hpicked'.trans (congrArg _ hpicked)

/-- A fork that neither fails nor faults is `KernelFork`, with the heap grown. -/
theorem forkCopy_kernel {s : Kernel} {kPt : Nat → Pte} {parent : PcbPtr}
    {calls : ForkCalls} (hparent : s.activePCB = parent)
    (hx : x.kernel = s.setKPt kPt) (h : Region0 s.kPt)
    (h' : HeapGrown s.kPt kPt)
    (hlive : (x.forkCopy child parent reservedPage calls own).kernel.mode ≠
      .undefined)
    (hok : (x.forkCopy child parent reservedPage calls own).kernel.reg0
      parent ≠ Rc.error) :
    ∃ kPt', HeapGrown s.kPt kPt' ∧
      (x.forkCopy child parent reservedPage calls own).kernel =
        (s.forkCopy child parent reservedPage).setKPt kPt' ∧
      (x.forkCopy child parent reservedPage calls own).picked =
        reservedPage :: reservedPage :: x.picked := by
  unfold forkCopy at hlive hok ⊢
  simp only at hlive hok ⊢
  split at hlive
  · exact absurd rfl hlive
  · rename_i c hcopy
    simp only [hcopy] at hok
    have hactive : parent = x.kernel.activePCB := by
      rw [hx, ← hparent]
      rfl
    rw [hactive] at hok
    exact absurd (upd_same x.kernel.reg0 x.kernel.activePCB Rc.error) hok
  · rename_i c hcopy
    rw [hx] at hcopy
    have hvalid : (upd kPt reservedPage
        ⟨true, Prot.noXWR, (kPt reservedPage).pfn⟩ reservedPage).valid =
        true := by
      rw [upd_same]
    obtain ⟨hcopied, hgrown⟩ := copyUPTPages_kernel hvalid hcopy
    simp only [upd_same, upd_upd] at hcopied hgrown
    have hregion : Region0 kPt := h.grown h'
    replace hgrown : HeapGrown kPt (upd c.kPt reservedPage invalidPte) := by
      rw [← hregion.upd_reserved]
      exact hgrown
    have hcoarse : s.forkCopy child parent reservedPage =
        (((s.setUserPageTable child c.uPt2).setPfnList c.pool).setKPt
          (upd s.kPt reservedPage invalidPte)).forkReady child := by
      unfold Kernel.forkCopy
      have hsame : copyUPT (s.pcb.userPageTable parent) (List.range userPtSize)
          (s.pcb.userPageTable child) s.pfnList (s.kPt reservedPage).pfn =
          (true, c.uPt2, c.pool, (c.kPt reservedPage).pfn) := by
        rw [← h'.above (Nat.le_refl _)]
        exact hcopied
      rw [hsame]
      rfl
    have hbefore : Region0 (upd s.kPt reservedPage invalidPte) := by
      rw [h.upd_reserved]
      exact h
    obtain ⟨kPt', hgrown', hkernel, hpicked⟩ := forkReady_kernel
      (s := ((s.setUserPageTable child c.uPt2).setPfnList c.pool).setKPt
        (upd s.kPt reservedPage invalidPte))
      (by rw [hx]; rfl) hbefore (hregion.grown hgrown) hlive
    rw [hcoarse]
    exact ⟨kPt', h'.trans (hgrown.trans hgrown'), hkernel, hpicked⟩

theorem kernelFork_kernel {pid : Nat} {calls : ForkCalls}
    (h : Region0 x.kernel.kPt)
    (hlive : (x.kernelFork pid calls own).kernel.mode ≠ .undefined)
    (hok : (x.kernelFork pid calls own).kernel.reg0 x.kernel.activePCB ≠
      Rc.error) :
    ∃ kPt', HeapGrown x.kernel.kPt kPt' ∧
      (x.kernelFork pid calls own).kernel =
        (x.kernel.kernelFork pid).setKPt kPt' ∧
      (x.kernelFork pid calls own).picked =
        reservedPage :: reservedPage :: x.picked := by
  unfold kernelFork at hlive hok ⊢
  unfold Kernel.kernelFork
  simp only at hlive hok ⊢
  split at hlive
  · exact absurd rfl hlive
  · rename_i child forked hinit
    simp only [hinit] at hok ⊢
    have hforked := Kernel.initProcess_kPt hinit
    obtain ⟨kPt, hgrown, hkernel, hpicked⟩ := setKernelBrks_kernel
      (x.withKernel (forked.copyIndices child x.kernel.activePCB))
      calls.early
    have hregion : Region0
        (forked.copyIndices child x.kernel.activePCB).kPt := by
      rw [← hforked.1] at h
      exact h
    have hsearch : reservedKernelIndex ((x.withKernel (forked.copyIndices
        child x.kernel.activePCB)).setKernelBrks calls.early).kernel.kPt =
          some reservedPage := by
      rw [hkernel]
      exact (hregion.grown hgrown).search
    simp only [hsearch] at hlive hok ⊢
    rw [hregion.search]
    obtain ⟨kPt', hgrown', hkernel', hpicked'⟩ :=
      forkCopy_kernel (s := forked.copyIndices child x.kernel.activePCB)
        hforked.2 hkernel hregion hgrown hlive hok
    rw [hpicked] at hpicked'
    rw [← hforked.1]
    exact ⟨kPt', hgrown', hkernel', hpicked'⟩

end Store

end Yalnix
