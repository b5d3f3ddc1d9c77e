import Yalnix.Memory.Frames
import Yalnix.Memory.KernelStack
import Yalnix.Memory.Region0

/-!
# Fork copies the whole process

The child gets fresh frames from the pool.  Each page is copied through the
reserved page into a frame that no source is kept in, so a copy is disturbed by
no later one.
-/

namespace Yalnix

open Kernel

variable {Page : Type*}

/-- The frames of the listed entries. -/
def framesOf (table : Nat → Pte) (pages : List Nat) : List Nat :=
  pages.map fun i => (table i).pfn

theorem mem_framesOf {table : Nat → Pte} {pages : List Nat} {i : Nat}
    (h : i ∈ pages) : (table i).pfn ∈ framesOf table pages :=
  List.mem_map_of_mem h

theorem framesOf_congr {table table' : Nat → Pte} {pages : List Nat}
    (h : ∀ i ∈ pages, (table' i).pfn = (table i).pfn) :
    framesOf table' pages = framesOf table pages :=
  List.map_congr_left h

/-! ## The kernel stack of the child -/

theorem allocKernelStack_frames {pages : List Nat} {table table' : Nat → Pte}
    {pool pool' : List Nat} (hnodup : pages.Nodup)
    (h : allocKernelStack pages table pool = some (table', pool')) :
    pool = framesOf table' pages ++ pool' ∧
      (∀ i ∈ pages, (table' i).pfn ≠ 0) ∧
      ∀ i, i ∉ pages → table' i = table i := by
  induction pages generalizing table pool with
  | nil =>
      cases h
      exact ⟨rfl, nofun, fun _ _ => rfl⟩
  | cons j pages ih =>
      obtain ⟨hj, hpages⟩ := List.nodup_cons.1 hnodup
      rw [allocKernelStack] at h
      split at h
      · cases h
      · rename_i pfn rest halloc
        obtain ⟨rfl, hpfn⟩ := allocatePFN_eq_some halloc
        obtain ⟨hpool, hne, hrest⟩ := ih hpages h
        have hentry : table' j = ⟨false, Prot.noXWR, pfn⟩ := by
          rw [hrest j hj]
          exact upd_same _ _ _
        refine ⟨?_, ?_, ?_⟩
        · rw [hpool]
          simp [framesOf, hentry]
        · intro i hi
          rcases List.mem_cons.1 hi with rfl | hi
          · rw [hentry]
            exact hpfn
          · exact hne i hi
        · intro i hi
          rw [List.mem_cons, not_or] at hi
          rw [hrest i hi.2]
          exact upd_other hi.1 _ _

/-! ## The loop of `CopyUPT` -/

section Copy

variable {uPt1 : Nat → Pte} {calls : Nat → List Nat}

/-- The pages of the list that are mapped. -/
def validAmong (table : Nat → Pte) (pages : List Nat) : List Nat :=
  pages.filter fun i => (table i).valid

theorem mem_validAmong {table : Nat → Pte} {pages : List Nat} {i : Nat} :
    i ∈ validAmong table pages ↔ i ∈ pages ∧ (table i).valid = true :=
  List.mem_filter

/-- What a loop that ran to its end has copied. -/
structure PagesCopied (uPt1 : Nat → Pte) (pages : List Nat)
    (c c' : CopyState Page) : Prop where
  pool : c.pool = framesOf c'.uPt2 (validAmong uPt1 pages) ++ c'.pool
  entry : ∀ i ∈ validAmong uPt1 pages,
    c'.uPt2 i = ⟨true, (uPt1 i).prot, (c'.uPt2 i).pfn⟩ ∧ (c'.uPt2 i).pfn ≠ 0
  other : ∀ i, i ∉ validAmong uPt1 pages → c'.uPt2 i = c.uPt2 i
  copied : ∀ i ∈ validAmong uPt1 pages,
    c'.ram (c'.uPt2 i).pfn = c.ram (uPt1 i).pfn
  kept : ∀ f, f ∉ framesOf c'.uPt2 (validAmong uPt1 pages) →
    c'.ram f = c.ram f

theorem copyPage_eq_some {ram ram' : Nat → Page} {dst src : Pte}
    (h : copyPage ram dst src = some ram') :
    ram' = upd ram dst.pfn (ram src.pfn) := by
  unfold copyPage at h
  split at h
  · exact (Option.some.inj h).symm
  · cases h

/-- A page copied before the others: no later copy writes its frame, and its
own frame holds no later source. -/
theorem PagesCopied.cons {j pfn : Nat} {pages : List Nat}
    {c c₁ c' : CopyState Page} (h : PagesCopied uPt1 pages c₁ c')
    (hj : j ∉ pages) (hmapped : (uPt1 j).valid = true)
    (hnodup : c.pool.Nodup) (hpool : c.pool = pfn :: c₁.pool) (hpfn : pfn ≠ 0)
    (hsource : ∀ i ∈ validAmong uPt1 pages, (uPt1 i).pfn ∉ c.pool)
    (htable : c₁.uPt2 = upd c.uPt2 j ⟨true, (uPt1 j).prot, pfn⟩)
    (hram : c₁.ram = upd c.ram pfn (c.ram (uPt1 j).pfn)) :
    PagesCopied uPt1 (j :: pages) c c' := by
  have hpages : validAmong uPt1 (j :: pages) = j :: validAmong uPt1 pages :=
    List.filter_cons_of_pos hmapped
  have hnew : c'.uPt2 j = ⟨true, (uPt1 j).prot, pfn⟩ := by
    rw [h.other j (fun hmem => hj (mem_validAmong.1 hmem).1), htable]
    exact upd_same _ _ _
  have hframes : framesOf c'.uPt2 (j :: validAmong uPt1 pages) =
      pfn :: framesOf c'.uPt2 (validAmong uPt1 pages) := by
    simp [framesOf, hnew]
  have hlater : pfn ∉ framesOf c'.uPt2 (validAmong uPt1 pages) := by
    rw [hpool, List.nodup_cons, h.pool] at hnodup
    exact fun hmem => hnodup.1 (List.mem_append_left _ hmem)
  constructor
  · rw [hpages, hframes, hpool, h.pool]
    rfl
  · rw [hpages]
    intro i hi
    rcases List.mem_cons.1 hi with rfl | hi
    · rw [hnew]
      exact ⟨rfl, hpfn⟩
    · exact h.entry i hi
  · rw [hpages]
    intro i hi
    rw [List.mem_cons, not_or] at hi
    rw [h.other i hi.2, htable]
    exact upd_other hi.1 _ _
  · rw [hpages]
    intro i hi
    rcases List.mem_cons.1 hi with rfl | hi
    · rw [hnew, h.kept pfn hlater, hram]
      exact upd_same _ _ _
    · have hne : (uPt1 i).pfn ≠ pfn := by
        intro heq
        apply hsource i hi
        rw [heq, hpool]
        exact List.mem_cons_self
      rw [h.copied i hi, hram]
      exact upd_other hne _ _
  · rw [hpages, hframes]
    intro f hf
    rw [List.mem_cons, not_or] at hf
    rw [h.kept f hf.2, hram]
    exact upd_other hf.1 _ _

theorem copyUPTPages_copied {pages : List Nat} {c c' : CopyState Page}
    {reserved : Nat} (hnodup : pages.Nodup) (hpool : c.pool.Nodup)
    (hsource : ∀ i ∈ validAmong uPt1 pages, (uPt1 i).pfn ∉ c.pool)
    (h : copyUPTPages uPt1 uPt1 reserved calls pages c = some (true, c')) :
    PagesCopied uPt1 pages c c' := by
  induction pages generalizing c with
  | nil =>
      cases h
      exact ⟨rfl, nofun, fun _ _ => rfl, nofun, fun _ _ => rfl⟩
  | cons j pages ih =>
      obtain ⟨hj, hpages⟩ := List.nodup_cons.1 hnodup
      rw [copyUPTPages] at h
      split at h
      · rename_i hmapped
        split at h
        · cases h
        · rename_i pfn pool halloc
          obtain ⟨heq, hpfn⟩ := allocatePFN_eq_some halloc
          simp only at h
          split at h
          · cases h
          · rename_i ram hcopy
            have hram := copyPage_eq_some hcopy
            have hlater (i : Nat) (hi : i ∈ validAmong uPt1 pages) :
                (uPt1 i).pfn ∉ c.pool := by
              apply hsource
              rw [mem_validAmong] at hi ⊢
              exact ⟨List.mem_cons_of_mem _ hi.1, hi.2⟩
            have hrest := ih hpages
              (List.nodup_cons.1 (heq ▸ hpool)).2
              (fun i hi hmem => hlater i hi (heq ▸ List.mem_cons_of_mem _ hmem))
              h
            simp only [upd_same] at hram
            exact hrest.cons hj hmapped hpool heq hpfn hlater rfl hram
      · rename_i hunmapped
        have hsame : validAmong uPt1 (j :: pages) = validAmong uPt1 pages :=
          List.filter_cons_of_neg hunmapped
        rw [hsame] at hsource
        have hrest := ih hpages hpool hsource h
        constructor
        · rw [hsame]
          exact hrest.pool
        · rw [hsame]
          exact hrest.entry
        · rw [hsame]
          exact hrest.other
        · rw [hsame]
          exact hrest.copied
        · rw [hsame]
          exact hrest.kept

/-! ## The loop of `KCCopy` -/

/-- The sources are the running stack, which no copy writes. -/
theorem copyStackPages_copied {reserved : Nat} {pages : List Nat}
    {dst dst' kPt kPt' : Nat → Pte} {ram ram' : Nat → Page}
    (hnodup : (framesOf dst pages).Nodup)
    (hreserved : reserved < kernelStackBase)
    (hsource : ∀ i ∈ pages,
      (kPt (kernelStackBase + i)).pfn ∉ framesOf dst pages)
    (h : copyStackPages reserved pages dst kPt ram = some (dst', kPt', ram')) :
    (∀ i ∈ pages, ram' (dst i).pfn = ram (kPt (kernelStackBase + i)).pfn) ∧
      ∀ f, f ∉ framesOf dst pages → ram' f = ram f := by
  induction pages generalizing dst kPt ram with
  | nil =>
      cases h
      exact ⟨nofun, fun _ _ => rfl⟩
  | cons j pages ih =>
      rw [copyStackPages] at h
      simp only [upd_same] at h
      split at h
      · cases h
      · rename_i ram₁ hcopy
        have hram := copyPage_eq_some hcopy
        obtain ⟨hj, hpages⟩ := List.nodup_cons.1 hnodup
        have hframes : framesOf (upd dst j { dst j with valid := true }) pages =
            framesOf dst pages := by
          apply framesOf_congr
          intro i _
          by_cases hij : i = j
          · rw [hij, upd_same]
          · rw [upd_other hij]
        have hstack (i : Nat) (pte : Pte) :
            upd kPt reserved pte (kernelStackBase + i) =
              kPt (kernelStackBase + i) :=
          upd_other (by omega) _ _
        rw [hstack] at hram
        obtain ⟨hcopied, hkept⟩ := ih (hframes ▸ hpages)
          (by
            intro i hi hmem
            rw [hstack, hframes] at hmem
            exact hsource i (List.mem_cons_of_mem _ hi)
              (List.mem_cons_of_mem _ hmem)) h
        rw [hframes] at hkept
        constructor
        · intro i hi
          rcases List.mem_cons.1 hi with rfl | hi
          · rw [hkept _ hj, hram]
            exact upd_same _ _ _
          · have hpfn : (upd dst j { dst j with valid := true } i).pfn =
                (dst i).pfn := by
              by_cases hij : i = j
              · rw [hij, upd_same]
              · rw [upd_other hij]
            have hne : (kPt (kernelStackBase + i)).pfn ≠ (dst j).pfn := by
              intro heq
              apply hsource i (List.mem_cons_of_mem _ hi)
              rw [heq]
              exact mem_framesOf List.mem_cons_self
            rw [← hpfn, hcopied i hi, hstack, hram]
            exact upd_other hne _ _
        · intro f hf
          have hf' : f ≠ (dst j).pfn ∧ f ∉ framesOf dst pages := by
            rw [← not_or, ← List.mem_cons]
            exact hf
          rw [hkept f hf'.2, hram]
          exact upd_other hf'.1 _ _

end Copy

/-! ## `KCCopy` -/

theorem kernelOwns_iff {kPt : Nat → Pte} {f : Nat} :
    kernelOwns kPt f = true ↔
      ∃ i, i < vmem1BasePage ∧ (kPt i).valid = true ∧ (kPt i).pfn = f := by
  unfold kernelOwns
  simp

theorem kernelOwns_upd {kPt : Nat → Pte} {reserved : Nat}
    (h : (kPt reserved).valid = false) (f : Nat) :
    kernelOwns (upd kPt reserved invalidPte) f = kernelOwns kPt f := by
  rw [Bool.eq_iff_iff, kernelOwns_iff, kernelOwns_iff]
  constructor
  · rintro ⟨i, hi, hvalid, hpfn⟩
    by_cases hir : i = reserved
    · rw [hir, upd_same] at hvalid
      cases hvalid
    · rw [upd_other hir] at hvalid hpfn
      exact ⟨i, hi, hvalid, hpfn⟩
  · rintro ⟨i, hi, hvalid, hpfn⟩
    have hir : i ≠ reserved := by
      rintro rfl
      rw [h] at hvalid
      cases hvalid
    refine ⟨i, hi, ?_, ?_⟩
    · rw [upd_other hir]
      exact hvalid
    · rw [upd_other hir]
      exact hpfn

/-- The pages of the kernel stack are mapped. -/
def StackMapped (kPt : Nat → Pte) : Prop :=
  ∀ i, i < kernelStackSize → (kPt (kernelStackBase + i)).valid = true

theorem StackMapped.search {kPt : Nat → Pte} (h : StackMapped kPt)
    {reserved : Nat} (hsearch : reservedKernelIndex kPt = some reserved) :
    reserved < kernelStackBase ∧ (kPt reserved).valid = false := by
  obtain ⟨hle, hinvalid⟩ := reservedKernelIndex_spec hsearch
  have hne : reserved ≠ kernelStackBase := by
    rintro rfl
    have hbase := h 0 Nat.two_pos
    rw [Nat.add_zero, hinvalid] at hbase
    cases hbase
  exact ⟨Nat.lt_of_le_of_ne hle hne, hinvalid⟩

namespace Kernel

/-- The frames of the kernel stack of a process. -/
def stackFrames (s : Kernel) (p : PcbPtr) : List Nat :=
  framesOf (s.pcb.kernelStackPt p) (List.range kernelStackSize)

/-- The frames of the mapped user pages of a process. -/
def userFrames (s : Kernel) (p : PcbPtr) : List Nat :=
  framesOf (s.pcb.userPageTable p)
    (validAmong (s.pcb.userPageTable p) (List.range userPtSize))

/-- The new process has the frames on top of the pool for its stack. -/
theorem initProcess_frames {s s' : Kernel} {active : Option PcbPtr} {pid : Nat}
    {ctx : UserContext} {c : PcbPtr} (hpid : pid ≠ 0)
    (h : s.initProcess active pid ctx = some (c, s')) :
    c = s.npcb ∧ s'.npcb = s.npcb + 1 ∧ s'.ptbr1 = s.ptbr1 ∧
      s'.pcb.pid c = pid ∧
      s'.pcb.userPageTable = upd s.pcb.userPageTable c (fun _ => invalidPte) ∧
      s.pfnList = s'.stackFrames c ++ s'.pfnList ∧
      ∀ f ∈ s'.stackFrames c, f ≠ 0 := by
  unfold initProcess at h
  simp only [if_pos hpid] at h
  split at h
  · cases h
  · rename_i stack pool halloc
    cases h
    obtain ⟨hpool, hne, -⟩ := allocKernelStack_frames List.nodup_range halloc
    have hstack : upd s.pcb.kernelStackPt s.npcb stack s.npcb = stack :=
      upd_same _ _ _
    refine ⟨rfl, rfl, rfl, upd_same _ _ _, rfl, ?_, ?_⟩
    · unfold stackFrames
      simp only
      rw [hstack]
      exact hpool
    · unfold stackFrames
      simp only
      rw [hstack]
      intro f hf
      obtain ⟨i, hi, rfl⟩ := List.mem_map.1 hf
      exact hne i hi

/-- Where the segments of a process begin and end. -/
def indices (s : Kernel) (p : PcbPtr) : Int × Int × Int × Int :=
  (s.pcb.userHeapPtIndex p, s.pcb.userStackPtIndex p, s.pcb.userDataPtIndex p,
    s.pcb.userTextPtIndex p)

theorem initProcess_indices {s s' : Kernel} {active : Option PcbPtr}
    {pid : Nat} {ctx : UserContext} {c p : PcbPtr} (hp : p ≠ c)
    (h : s.initProcess active pid ctx = some (c, s')) :
    s'.indices p = s.indices p := by
  unfold initProcess at h
  simp only at h
  split at h
  · cases h
  · cases h
    unfold indices
    simp only [upd_other hp]

theorem copyIndices_indices {s : Kernel} {child parent : PcbPtr} :
    (s.copyIndices child parent).indices child = s.indices parent := by
  unfold indices copyIndices
  simp [setHeapIndex, setStackIndex, setDataIndex, setTextIndex, setPcb]

end Kernel

namespace Store

variable {x : Store Page} {child : PcbPtr} {own : Nat → Page}

theorem kcCopy_ram {k : KernelContext} (hmapped : StackMapped x.kernel.kPt)
    (hnodup : (stackFrames x.kernel child).Nodup)
    (hsource : ∀ i, i < kernelStackSize →
      (x.kernel.kPt (kernelStackBase + i)).pfn ∉ stackFrames x.kernel child)
    (hlive : (x.kcCopy child k own).kernel.mode ≠ .undefined) :
    (∀ i, i < kernelStackSize →
        (x.kcCopy child k own).ram (x.kernel.pcb.kernelStackPt child i).pfn =
          own (x.kernel.kPt (kernelStackBase + i)).pfn) ∧
      ∀ f, f ∉ stackFrames x.kernel child →
        (x.kcCopy child k own).ram f =
          if kernelOwns x.kernel.kPt f then own f else x.ram f := by
  unfold kcCopy at hlive ⊢
  simp only at hlive ⊢
  split at hlive
  · exact absurd rfl hlive
  · rename_i reserved hsearch
    split at hlive
    · exact absurd rfl hlive
    · rename_i dst kPt ram hcopy
      have hreserved := (hmapped.search hsearch).1
      have hstack (i : Nat) (pte : Pte) :
          upd x.kernel.kPt reserved pte (kernelStackBase + i) =
            x.kernel.kPt (kernelStackBase + i) :=
        upd_other (by omega) _ _
      obtain ⟨hcopied, hkept⟩ := copyStackPages_copied hnodup hreserved
        (by
          intro i hi
          rw [hstack]
          exact hsource i (List.mem_range.1 hi)) hcopy
      refine ⟨fun i hi => ?_, hkept⟩
      have howned : kernelOwns x.kernel.kPt
          (x.kernel.kPt (kernelStackBase + i)).pfn = true := by
        apply kernelOwns_iff.2
        have hpage : kernelStackBase + i < vmem1BasePage := by
          unfold kernelStackSize at hi
          unfold kernelStackBase vmem1BasePage
          omega
        exact ⟨_, hpage, hmapped i hi, rfl⟩
      have hpage := hcopied i (List.mem_range.2 hi)
      rw [hstack, if_pos howned] at hpage
      exact hpage

/-- What the end of a fork leaves, with the heap at the copy of the stack. -/
structure Finished (x : Store Page) (child : PcbPtr) (own : Nat → Page)
    (kPt : Nat → Pte) (reserved : Nat) (y : Store Page) : Prop where
  search : reservedKernelIndex kPt = some reserved
  kernel : y.kernel = ((((x.kernel.queueAdd (some .readyQ) child).setKPt
    kPt).kcCopy child .kernelFork).ret (x.kernel.pcb.pid child))
  picked : y.picked = reserved :: x.picked
  stack : ∀ i, i < kernelStackSize →
    y.ram (x.kernel.pcb.kernelStackPt child i).pfn =
      own (x.kernel.kPt (kernelStackBase + i)).pfn
  other : ∀ f, f ∉ stackFrames x.kernel child →
    y.ram f = if kernelOwns kPt f then own f else x.ram f

theorem forkReady_finished {late : List Nat}
    (hmapped : StackMapped x.kernel.kPt)
    (hnodup : (stackFrames x.kernel child).Nodup)
    (hsource : ∀ i, i < kernelStackSize →
      (x.kernel.kPt (kernelStackBase + i)).pfn ∉ stackFrames x.kernel child)
    (hlive : (x.forkReady child late own).kernel.mode ≠ .undefined) :
    ∃ kPt reserved, HeapGrown x.kernel.kPt kPt ∧
      Finished x child own kPt reserved (x.forkReady child late own) := by
  obtain ⟨kPt, hgrown, hkernel, hpicked⟩ := setKernelBrks_kernel
    (x.withKernel (x.kernel.queueAdd (some .readyQ) child)) late
  have hstack (i : Nat) (hi : i < kernelStackSize) :
      kPt (kernelStackBase + i) = x.kernel.kPt (kernelStackBase + i) :=
    hgrown.of_valid (hmapped i hi)
  unfold forkReady at hlive ⊢
  simp only at hlive ⊢
  generalize hgrew : (x.withKernel (x.kernel.queueAdd (some .readyQ)
    child)).setKernelBrks late = z at hlive hkernel hpicked ⊢
  have hram : z.ram = x.ram := by
    rw [← hgrew]
    rfl
  have hpicked : z.picked = x.picked := hpicked
  have hkernel : z.kernel =
      (x.kernel.queueAdd (some .readyQ) child).setKPt kPt := hkernel
  split at hlive
  · rename_i hundefined
    exact absurd hundefined hlive
  · rename_i hdefined
    rw [if_neg hdefined]
    obtain ⟨reserved, hsearch, hcopied, hpicked'⟩ := kcCopy_kernel hdefined
    have hzPt : z.kernel.kPt = kPt := by
      rw [hkernel]
      rfl
    have hzStack : z.kernel.pcb.kernelStackPt =
        x.kernel.pcb.kernelStackPt := by
      rw [hkernel]
      rfl
    have hzFrames : stackFrames z.kernel child = stackFrames x.kernel child := by
      unfold stackFrames
      rw [hzStack]
    have hzMapped : StackMapped z.kernel.kPt := by
      intro i hi
      rw [hzPt, hstack i hi]
      exact hmapped i hi
    obtain ⟨hpages, hother⟩ := kcCopy_ram hzMapped (hzFrames ▸ hnodup)
      (by
        intro i hi
        rw [hzPt, hzFrames, hstack i hi]
        exact hsource i hi) hdefined
    rw [hzPt] at hsearch
    refine ⟨kPt, reserved, hgrown, hsearch, ?_, ?_, ?_, ?_⟩
    · rw [hcopied, hkernel]
      unfold Kernel.kcCopy
      have hsearch' : reservedKernelIndex ((x.kernel.queueAdd (some .readyQ)
          child).setKPt kPt).kPt = some reserved := hsearch
      rw [hsearch']
      rfl
    · exact hpicked'.trans (congrArg _ hpicked)
    · intro i hi
      have hpage := hpages i hi
      rw [hzStack, hzPt, hstack i hi] at hpage
      exact hpage
    · intro f hf
      have hf := hother f (hzFrames ▸ hf)
      rw [hzPt, hram] at hf
      exact hf

/-- The state of the store when the loop of `CopyUPT` starts. -/
def copyStart (x : Store Page) (child : PcbPtr) (reserved : Nat) :
    CopyState Page where
  uPt2 := x.kernel.pcb.userPageTable child
  pool := x.kernel.pfnList
  kPt := upd x.kernel.kPt reserved
    ⟨true, Prot.noXWR, (x.kernel.kPt reserved).pfn⟩
  kernelBrk := x.kernelBrk
  ram := x.ram

/-- The store once the reserved page has been given back. -/
def copyEnd (x : Store Page) (child : PcbPtr) (reserved : Nat)
    (c : CopyState Page) : Store Page where
  kernel := ((x.kernel.setUserPageTable child c.uPt2).setPfnList
    c.pool).setKPt (upd c.kPt reserved invalidPte)
  kernelBrk := c.kernelBrk
  ram := c.ram
  picked := reserved :: x.picked

theorem forkCopy_copied {parent : PcbPtr} {reserved : Nat} {calls : ForkCalls}
    (hparent : x.kernel.activePCB = parent) (hptbr1 : x.kernel.ptbr1 = parent)
    (hpool : x.kernel.pfnList.Nodup)
    (hsource : ∀ i ∈ validAmong (x.kernel.pcb.userPageTable parent)
      (List.range userPtSize),
      (x.kernel.pcb.userPageTable parent i).pfn ∉ x.kernel.pfnList)
    (hlive : (x.forkCopy child parent reserved calls own).kernel.mode ≠
      .undefined)
    (hok : (x.forkCopy child parent reserved calls own).kernel.reg0 parent ≠
      Rc.error) :
    ∃ c, PagesCopied (x.kernel.pcb.userPageTable parent)
        (List.range userPtSize) (x.copyStart child reserved) c ∧
      HeapGrown (upd x.kernel.kPt reserved invalidPte)
        (upd c.kPt reserved invalidPte) ∧
      x.forkCopy child parent reserved calls own =
        (x.copyEnd child reserved c).forkReady child calls.late own := by
  unfold forkCopy at hlive hok ⊢
  simp only [hptbr1] at hlive hok ⊢
  split at hlive
  · exact absurd rfl hlive
  · rename_i c hcopy
    simp only [hcopy] at hok
    rw [← hparent] at hok
    exact absurd (upd_same x.kernel.reg0 x.kernel.activePCB Rc.error) hok
  · rename_i c hcopy
    have hvalid : (upd x.kernel.kPt reserved
        ⟨true, Prot.noXWR, (x.kernel.kPt reserved).pfn⟩ reserved).valid =
        true := by
      rw [upd_same]
    obtain ⟨-, hgrown⟩ := copyUPTPages_kernel hvalid hcopy
    rw [upd_upd] at hgrown
    have hcopied := copyUPTPages_copied List.nodup_range hpool hsource hcopy
    exact ⟨c, hcopied, hgrown, rfl⟩

/-! ## Fork -/

/-- The pool has distinct frames.  No entry of Region 0, to which the heap may
still grow, and no page of the running process has one of them. -/
structure PoolUnmapped (x : Store Page) : Prop where
  nodup : x.kernel.pfnList.Nodup
  region0 : ∀ i, i < vmem1BasePage → (x.kernel.kPt i).pfn ∉ x.kernel.pfnList
  user : ∀ i, i < userPtSize →
    (x.kernel.pcb.userPageTable x.kernel.activePCB i).valid = true →
      (x.kernel.pcb.userPageTable x.kernel.activePCB i).pfn ∉
        x.kernel.pfnList

/-- The frames of a process. -/
def frames (x : Store Page) (p : PcbPtr) : List Nat :=
  x.kernel.stackFrames p ++ x.kernel.userFrames p

/-- `child` is a copy of `parent` on frames of its own. -/
structure Copied (x : Store Page) (parent child : PcbPtr) (own : Nat → Page)
    (y : Store Page) : Prop where
  entry : ∀ i, i < userPtSize →
    (y.kernel.pcb.userPageTable child i).valid =
        (x.kernel.pcb.userPageTable parent i).valid ∧
      ((x.kernel.pcb.userPageTable parent i).valid = true →
        (y.kernel.pcb.userPageTable child i).prot =
          (x.kernel.pcb.userPageTable parent i).prot)
  indices : y.kernel.indices child = x.kernel.indices parent
  stackEntry : ∀ i, i < kernelStackSize →
    (y.kernel.pcb.kernelStackPt child i).valid = true
  distinct : (y.frames child).Nodup
  fresh : ∀ f ∈ y.frames child,
    f ∈ x.kernel.pfnList ∧ f ∉ y.kernel.pfnList
  userPage : ∀ i, i < userPtSize →
    (x.kernel.pcb.userPageTable parent i).valid = true →
      y.ram (y.kernel.pcb.userPageTable child i).pfn =
        x.ram (x.kernel.pcb.userPageTable parent i).pfn
  stackPage : ∀ i, i < kernelStackSize →
    y.ram (y.kernel.pcb.kernelStackPt child i).pfn =
      own (x.kernel.kPt (kernelStackBase + i)).pfn

/-- What a fork leaves alone.  The frames mapped in Region 0 hold what the
kernel itself has written by the time it copies its stack. -/
structure Undisturbed (x : Store Page) (child : PcbPtr) (own : Nat → Page)
    (y : Store Page) : Prop where
  frame : ∀ f, f ∉ y.frames child →
    y.ram f = if kernelOwns y.kernel.kPt f then own f else x.ram f
  table : ∀ q, q ≠ child →
    y.kernel.pcb.userPageTable q = x.kernel.pcb.userPageTable q
  region0 : ∃ temporaries, y.picked = temporaries ++ x.picked ∧
    temporaries.length = 2 ∧
    ∀ i, i ∉ temporaries → y.kernel.kPt i = x.kernel.kPt i ∨
      i < reservedPage ∧ (x.kernel.kPt i).valid = false ∧
        y.kernel.kPt i = ⟨true, Prot.noXWR, (x.kernel.kPt i).pfn⟩

/-- A fork in stages: `z` is the store when the reserved page is searched for,
`c` the end of `CopyUPT`, and `kPt` Region 0 at the copy of the stack. -/
structure Stages (x : Store Page) (pid : Nat) (own : Nat → Page)
    (z : Store Page) (reserved : Nat) (c : CopyState Page) (kPt : Nat → Pte)
    (reserved' : Nat) (y : Store Page) : Prop where
  made : ∃ forked, x.kernel.initProcess (some x.kernel.activePCB) pid
      (x.kernel.uctxt x.kernel.activePCB) = some (x.kernel.npcb, forked) ∧
    z.kernel = (forked.copyIndices x.kernel.npcb x.kernel.activePCB).setKPt
      z.kernel.kPt
  ram : z.ram = x.ram
  picked : z.picked = x.picked
  early : HeapGrown x.kernel.kPt z.kernel.kPt
  search : reservedKernelIndex z.kernel.kPt = some reserved
  pages : PagesCopied (x.kernel.pcb.userPageTable x.kernel.activePCB)
    (List.range userPtSize) (z.copyStart x.kernel.npcb reserved) c
  copying : HeapGrown (upd z.kernel.kPt reserved invalidPte)
    (upd c.kPt reserved invalidPte)
  late : HeapGrown (upd c.kPt reserved invalidPte) kPt
  finished : Finished (z.copyEnd x.kernel.npcb reserved c) x.kernel.npcb own
    kPt reserved' y

/-- The hypotheses on a fork: it returns a pid, `helper_new_pid` and `malloc`
gave something new, and the running process is mapped. -/
structure Forks (x : Store Page) (pid : Nat) (calls : ForkCalls)
    (own : Nat → Page) : Prop where
  returns : (x.kernelFork pid calls own).kernel.mode = .user
  succeeds : (x.kernelFork pid calls own).kernel.reg0 x.kernel.activePCB ≠
    Rc.error
  pid : pid ≠ 0
  new : x.kernel.activePCB < x.kernel.npcb
  running : x.kernel.ptbr1 = x.kernel.activePCB
  stack : StackMapped x.kernel.kPt

theorem Forks.stages {pid : Nat} {calls : ForkCalls}
    (h : x.Forks pid calls own) (hpool : x.PoolUnmapped) :
    ∃ z reserved c kPt reserved',
      Stages x pid own z reserved c kPt reserved'
        (x.kernelFork pid calls own) := by
  have hlive : (x.kernelFork pid calls own).kernel.mode ≠ .undefined := by
    rw [h.returns]
    exact nofun
  have hok := h.succeeds
  unfold kernelFork at hlive hok ⊢
  simp only at hlive hok ⊢
  split at hlive
  · exact absurd rfl hlive
  · rename_i child forked hinit
    simp only [hinit] at hok ⊢
    obtain ⟨hchild, hnpcb, hptbr1, -, htable, hframes, -⟩ :=
      initProcess_frames h.pid hinit
    subst hchild
    have hforked := Kernel.initProcess_kPt hinit
    have hindices := copyIndices_memory (s := forked) x.kernel.npcb
      x.kernel.activePCB
    obtain ⟨kPt₁, hearly, hkernel, hpicked⟩ := setKernelBrks_kernel
      (x.withKernel (forked.copyIndices x.kernel.npcb x.kernel.activePCB))
      calls.early
    generalize hz : (x.withKernel (forked.copyIndices x.kernel.npcb
      x.kernel.activePCB)).setKernelBrks calls.early = z
      at hlive hok hkernel hpicked ⊢
    have hram : z.ram = x.ram := by
      rw [← hz]
      rfl
    have hkernel : z.kernel = (forked.copyIndices x.kernel.npcb
        x.kernel.activePCB).setKPt kPt₁ := hkernel
    have hzPt : z.kernel.kPt = kPt₁ := by
      rw [hkernel]
      rfl
    have hearly : HeapGrown x.kernel.kPt kPt₁ := by
      rw [← hforked.1]
      exact hearly
    have hmapped : StackMapped kPt₁ := by
      intro i hi
      rw [hearly.of_valid (h.stack i hi)]
      exact h.stack i hi
    have hactive : z.kernel.activePCB = x.kernel.activePCB := by
      rw [hkernel]
      exact hforked.2
    have hzPtbr1 : z.kernel.ptbr1 = x.kernel.activePCB := by
      rw [hkernel, ← h.running]
      exact hptbr1
    have hzPool : z.kernel.pfnList = forked.pfnList := by
      rw [hkernel]
      rfl
    have hzTable : z.kernel.pcb.userPageTable x.kernel.activePCB =
        x.kernel.pcb.userPageTable x.kernel.activePCB := by
      have hsame : z.kernel.pcb.userPageTable = forked.pcb.userPageTable := by
        rw [hkernel]
        rfl
      rw [hsame, htable]
      exact upd_other (Nat.ne_of_lt h.new) _ _
    have hzStack : z.kernel.stackFrames x.kernel.npcb =
        forked.stackFrames x.kernel.npcb := by
      rw [hkernel]
      rfl
    have hnodup := hpool.nodup
    rw [hframes, List.nodup_append] at hnodup
    split at hlive
    · rename_i hnone
      simp only [hnone] at hok
      rw [← hactive] at hok
      exact absurd (upd_same z.kernel.reg0 z.kernel.activePCB Rc.error) hok
    · rename_i reserved hsearch
      simp only [hsearch] at hok ⊢
      obtain ⟨hreserved, -⟩ := hmapped.search (hzPt ▸ hsearch)
      obtain ⟨c, hpages, hcopying, hready⟩ := forkCopy_copied hactive hzPtbr1
        (hzPool ▸ hnodup.2.1)
        (by
          intro i hi hmem
          rw [hzTable, mem_validAmong, List.mem_range] at hi
          rw [hzTable, hzPool] at hmem
          apply hpool.user i hi.1 hi.2
          rw [hframes]
          exact List.mem_append_right _ hmem) hlive hok
      rw [hready] at hlive ⊢
      rw [hzTable] at hpages
      have hgrown : HeapGrown (upd kPt₁ reserved invalidPte)
          (upd c.kPt reserved invalidPte) := hzPt ▸ hcopying
      have hstack (i : Nat) (hi : i < kernelStackSize) :
          upd c.kPt reserved invalidPte (kernelStackBase + i) =
            x.kernel.kPt (kernelStackBase + i) := by
        have hne : kernelStackBase + i ≠ reserved := by omega
        have hvalid : (upd kPt₁ reserved invalidPte
            (kernelStackBase + i)).valid = true := by
          rw [upd_other hne]
          exact hmapped i hi
        rw [hgrown.of_valid hvalid, upd_other hne]
        exact hearly.of_valid (h.stack i hi)
      obtain ⟨kPt, reserved', hlate, hfinished⟩ :=
        forkReady_finished (x := z.copyEnd x.kernel.npcb reserved c)
          (fun i hi => by
            show (upd c.kPt reserved invalidPte
              (kernelStackBase + i)).valid = true
            rw [hstack i hi]
            exact h.stack i hi)
          (hzStack ▸ hnodup.1)
          (fun i hi hmem => by
            have hmem : (upd c.kPt reserved invalidPte
              (kernelStackBase + i)).pfn ∈
                z.kernel.stackFrames x.kernel.npcb := hmem
            rw [hstack i hi, hzStack] at hmem
            have hpage : kernelStackBase + i < vmem1BasePage := by
              unfold kernelStackSize at hi
              unfold kernelStackBase vmem1BasePage
              omega
            apply hpool.region0 _ hpage
            rw [hframes]
            exact List.mem_append_left _ hmem) hlive
      exact ⟨z, reserved, c, kPt, reserved',
        ⟨forked, hinit, hzPt ▸ hkernel⟩, hram, hpicked, hzPt ▸ hearly,
        hsearch, hpages, hcopying, hlate, hfinished⟩

namespace Finished

variable {kPt : Nat → Pte} {reserved : Nat} {y : Store Page}

theorem result (h : Finished x child own kPt reserved y) :
    y.kernel = ((((((((x.kernel.queueAdd (some .readyQ) child).setKPt
      kPt).setKernelContext child .kernelFork).setKernelStackPt child fun i =>
        if i < kernelStackSize then
          { x.kernel.pcb.kernelStackPt child i with valid := true }
        else x.kernel.pcb.kernelStackPt child i).setKPt
          (upd kPt reserved invalidPte)).setUctxt child
            (x.kernel.uctxt x.kernel.activePCB)).setReg0 child
              (x.kernel.reg0 x.kernel.activePCB)).ret
                (x.kernel.pcb.pid child)) := by
  rw [h.kernel]
  unfold Kernel.kcCopy
  have hsearch : reservedKernelIndex ((x.kernel.queueAdd (some .readyQ)
      child).setKPt kPt).kPt = some reserved := h.search
  rw [hsearch]
  rfl

theorem kPt_eq (h : Finished x child own kPt reserved y) :
    y.kernel.kPt = upd kPt reserved invalidPte := by
  rw [h.result]
  rfl

theorem pfnList (h : Finished x child own kPt reserved y) :
    y.kernel.pfnList = x.kernel.pfnList := by
  rw [h.result]
  rfl

theorem userPageTable (h : Finished x child own kPt reserved y) :
    y.kernel.pcb.userPageTable = x.kernel.pcb.userPageTable := by
  rw [h.result]
  rfl

theorem kernelStackPt (h : Finished x child own kPt reserved y) {i : Nat}
    (hi : i < kernelStackSize) :
    y.kernel.pcb.kernelStackPt child i =
      { x.kernel.pcb.kernelStackPt child i with valid := true } := by
  have htable : y.kernel.pcb.kernelStackPt child = fun i =>
      if i < kernelStackSize then
        { x.kernel.pcb.kernelStackPt child i with valid := true }
      else x.kernel.pcb.kernelStackPt child i := by
    rw [h.result]
    exact upd_same _ _ _
  rw [htable]
  exact if_pos hi

theorem stackFrames (h : Finished x child own kPt reserved y) :
    y.kernel.stackFrames child = x.kernel.stackFrames child := by
  apply framesOf_congr
  intro i hi
  rw [h.kernelStackPt (List.mem_range.1 hi)]

theorem kernelContext (h : Finished x child own kPt reserved y) :
    y.kernel.pcb.kernelContext child = .kernelFork := by
  rw [h.result]
  exact upd_same _ _ _

theorem returns (h : Finished x child own kPt reserved y) :
    y.kernel.mode = .user ∧ y.kernel.activePCB = x.kernel.activePCB ∧
      y.kernel.npcb = x.kernel.npcb ∧
      y.kernel.reg0 x.kernel.activePCB = x.kernel.pcb.pid child := by
  rw [h.result]
  exact ⟨rfl, rfl, rfl, upd_same _ _ _⟩

end Finished

namespace Stages

variable {pid reserved reserved' : Nat} {c : CopyState Page}
  {kPt : Nat → Pte} {y z : Store Page}

theorem table (h : Stages x pid own z reserved c kPt reserved' y)
    (hpid : pid ≠ 0) :
    y.kernel.pcb.userPageTable =
      upd x.kernel.pcb.userPageTable x.kernel.npcb c.uPt2 := by
  obtain ⟨forked, hinit, hkernel⟩ := h.made
  obtain ⟨-, -, -, -, htable, -, -⟩ := initProcess_frames hpid hinit
  have hend : (z.copyEnd x.kernel.npcb reserved c).kernel.pcb.userPageTable =
      upd z.kernel.pcb.userPageTable x.kernel.npcb c.uPt2 := rfl
  have hz : z.kernel.pcb.userPageTable = forked.pcb.userPageTable := by
    rw [hkernel]
    rfl
  rw [h.finished.userPageTable, hend, hz, htable, upd_upd]

/-- The child has the pages that its parent has, and no others. -/
theorem entry (h : Stages x pid own z reserved c kPt reserved' y)
    (hpid : pid ≠ 0) {i : Nat} (hi : i < userPtSize) :
    (c.uPt2 i).valid =
        (x.kernel.pcb.userPageTable x.kernel.activePCB i).valid ∧
      ((x.kernel.pcb.userPageTable x.kernel.activePCB i).valid = true →
        (c.uPt2 i).prot =
          (x.kernel.pcb.userPageTable x.kernel.activePCB i).prot) := by
  cases hvalid : (x.kernel.pcb.userPageTable x.kernel.activePCB i).valid with
  | true =>
      have hentry := (h.pages.entry i
        (mem_validAmong.2 ⟨List.mem_range.2 hi, hvalid⟩)).1
      rw [hentry]
      exact ⟨rfl, fun _ => rfl⟩
  | false =>
      obtain ⟨forked, hinit, hkernel⟩ := h.made
      obtain ⟨-, -, -, -, htable, -, -⟩ := initProcess_frames hpid hinit
      have hz : z.kernel.pcb.userPageTable = forked.pcb.userPageTable := by
        rw [hkernel]
        rfl
      have hother := h.pages.other i (by
        intro hmem
        have hmapped := (mem_validAmong.1 hmem).2
        rw [hvalid] at hmapped
        cases hmapped)
      have hempty : (z.copyStart x.kernel.npcb reserved).uPt2 i =
          invalidPte := by
        show z.kernel.pcb.userPageTable x.kernel.npcb i = invalidPte
        rw [hz, htable, upd_same]
      rw [hother, hempty]
      exact ⟨rfl, nofun⟩

theorem userFrames (h : Stages x pid own z reserved c kPt reserved' y)
    (hpid : pid ≠ 0) :
    y.kernel.userFrames x.kernel.npcb =
      framesOf c.uPt2 (validAmong
        (x.kernel.pcb.userPageTable x.kernel.activePCB)
        (List.range userPtSize)) := by
  unfold Kernel.userFrames
  rw [h.table hpid, upd_same]
  congr 1
  apply List.filter_congr
  intro i hi
  exact (h.entry hpid (List.mem_range.1 hi)).1

/-- All frames come from the top of the pool, those of the stack first. -/
theorem pool (h : Stages x pid own z reserved c kPt reserved' y)
    (hpid : pid ≠ 0) :
    x.kernel.pfnList = y.frames x.kernel.npcb ++ y.kernel.pfnList ∧
      ∀ f ∈ y.frames x.kernel.npcb, f ≠ 0 := by
  obtain ⟨forked, hinit, hkernel⟩ := h.made
  obtain ⟨-, -, -, -, -, hframes, hne⟩ := initProcess_frames hpid hinit
  have hpool := h.pages.pool
  have hz : (z.copyStart x.kernel.npcb reserved).pool = forked.pfnList := by
    show z.kernel.pfnList = forked.pfnList
    rw [hkernel]
    rfl
  have hstack : y.kernel.stackFrames x.kernel.npcb =
      forked.stackFrames x.kernel.npcb := by
    rw [h.finished.stackFrames]
    show z.kernel.stackFrames x.kernel.npcb = _
    rw [hkernel]
    rfl
  have hrest : y.kernel.pfnList = c.pool := h.finished.pfnList
  rw [hz, ← h.userFrames hpid] at hpool
  constructor
  · unfold frames
    rw [hframes, hpool, hstack, hrest, List.append_assoc]
  · intro f hf
    rcases List.mem_append.1 hf with hf | hf
    · exact hne f (hstack ▸ hf)
    · rw [h.userFrames hpid] at hf
      obtain ⟨i, hi, rfl⟩ := List.mem_map.1 hf
      exact (h.pages.entry i hi).2

/-- When the stack is copied every entry of Region 0 has its old frame, or
none. -/
theorem kPt_pfn (h : Stages x pid own z reserved c kPt reserved' y) (i : Nat) :
    (kPt i).pfn = (x.kernel.kPt i).pfn ∨ (kPt i).pfn = 0 := by
  rw [h.late.pfn, h.copying.pfn]
  by_cases hi : i = reserved
  · rw [hi, upd_same]
    exact .inr rfl
  · rw [upd_other hi]
    exact .inl (h.early.pfn i)

theorem not_owned (h : Stages x pid own z reserved c kPt reserved' y)
    (hpid : pid ≠ 0) (hpool : x.PoolUnmapped) {f : Nat}
    (hf : f ∈ y.frames x.kernel.npcb) : kernelOwns kPt f = false := by
  obtain ⟨hframes, hne⟩ := h.pool hpid
  rw [Bool.eq_false_iff]
  intro howned
  obtain ⟨i, hi, -, rfl⟩ := kernelOwns_iff.1 howned
  rcases h.kPt_pfn i with hsame | hzero
  · apply hpool.region0 i hi
    rw [hframes, ← hsame]
    exact List.mem_append_left _ hf
  · exact hne _ hf hzero

theorem copied (h : Stages x pid own z reserved c kPt reserved' y)
    (hforks : pid ≠ 0 ∧ x.kernel.activePCB < x.kernel.npcb)
    (hmapped : StackMapped x.kernel.kPt) (hpool : x.PoolUnmapped) :
    x.Copied x.kernel.activePCB x.kernel.npcb own y := by
  obtain ⟨hpid, hnew⟩ := hforks
  obtain ⟨hframes, hne⟩ := h.pool hpid
  have htable : y.kernel.pcb.userPageTable x.kernel.npcb = c.uPt2 := by
    rw [h.table hpid]
    exact upd_same _ _ _
  have hnodup := hpool.nodup
  rw [hframes, List.nodup_append] at hnodup
  obtain ⟨hdistinct, -, hdisjoint⟩ := hnodup
  have hstack (i : Nat) (hi : i < kernelStackSize) :
      (y.kernel.pcb.kernelStackPt x.kernel.npcb i).pfn =
        (z.kernel.pcb.kernelStackPt x.kernel.npcb i).pfn := by
    rw [h.finished.kernelStackPt hi]
    rfl
  have huser {f : Nat} (hf : f ∈ y.kernel.userFrames x.kernel.npcb) :
      y.ram f = c.ram f := by
    have hown := h.not_owned hpid hpool (List.mem_append_right _ hf)
    rw [h.finished.other f, hown, if_neg Bool.false_ne_true]
    · rfl
    · intro hmem
      rw [← h.finished.stackFrames] at hmem
      unfold frames at hdistinct
      exact (List.nodup_append.1 hdistinct).2.2 f hmem f hf rfl
  constructor
  · intro i hi
    rw [htable]
    exact h.entry hpid hi
  · obtain ⟨forked, hinit, hkernel⟩ := h.made
    have hz : y.kernel.indices x.kernel.npcb =
        z.kernel.indices x.kernel.npcb := by
      rw [h.finished.result]
      rfl
    have hcopied : z.kernel.indices x.kernel.npcb = (forked.copyIndices
        x.kernel.npcb x.kernel.activePCB).indices x.kernel.npcb := by
      rw [hkernel]
      rfl
    rw [hz, hcopied, copyIndices_indices]
    exact initProcess_indices (Nat.ne_of_lt hnew) hinit
  · intro i hi
    rw [h.finished.kernelStackPt hi]
  · exact hdistinct
  · intro f hf
    refine ⟨?_, fun hmem => hdisjoint f hf f hmem rfl⟩
    rw [hframes]
    exact List.mem_append_left _ hf
  · intro i hi hvalid
    have hmem := mem_validAmong.2 ⟨List.mem_range.2 hi, hvalid⟩
    have hframe : (c.uPt2 i).pfn ∈ y.kernel.userFrames x.kernel.npcb := by
      rw [h.userFrames hpid]
      exact mem_framesOf hmem
    rw [htable, huser hframe, h.pages.copied i hmem]
    show z.ram _ = x.ram _
    rw [h.ram]
  · intro i hi
    have hpage := h.finished.stack i hi
    rw [hstack i hi]
    have hz : kernelStackBase + i ≠ reserved := by
      have hsearched := h.search
      have hmapped' : StackMapped z.kernel.kPt := by
        intro j hj
        rw [h.early.of_valid (hmapped j hj)]
        exact hmapped j hj
      have hlt := (hmapped'.search hsearched).1
      omega
    have hsource : ((z.copyEnd x.kernel.npcb reserved c).kernel.kPt
        (kernelStackBase + i)).pfn =
          (x.kernel.kPt (kernelStackBase + i)).pfn := by
      show (upd c.kPt reserved invalidPte (kernelStackBase + i)).pfn = _
      rw [h.copying.pfn, upd_other hz]
      exact h.early.pfn _
    rw [hsource] at hpage
    exact hpage

theorem undisturbed (h : Stages x pid own z reserved c kPt reserved' y)
    (hpid : pid ≠ 0) : x.Undisturbed x.kernel.npcb own y where
  frame := fun f hf => by
    obtain ⟨hstack, huser⟩ := not_or.1 (mt List.mem_append.2 hf)
    rw [h.finished.stackFrames] at hstack
    rw [h.userFrames hpid] at huser
    have hram : (z.copyEnd x.kernel.npcb reserved c).ram f = x.ram f := by
      show c.ram f = x.ram f
      rw [h.pages.kept f huser, ← h.ram]
      rfl
    rw [h.finished.other f hstack, hram, h.finished.kPt_eq,
      kernelOwns_upd (reservedKernelIndex_spec h.finished.search).2]
  table := fun q hq => by
    rw [h.table hpid]
    exact upd_other hq _ _
  region0 := by
    refine ⟨[reserved', reserved], ?_, rfl, ?_⟩
    · rw [h.finished.picked]
      show reserved' :: reserved :: z.picked = _
      rw [h.picked]
      rfl
    · intro i hi
      rw [List.mem_pair, not_or] at hi
      have hgrown := (h.early.upd reserved invalidPte).trans
        (h.copying.trans h.late)
      rw [h.finished.kPt_eq, upd_other hi.1]
      have hpage := hgrown i
      rw [upd_other hi.2] at hpage
      exact hpage

end Stages

end Store

/-- A context that a process starts at stays until it runs. -/
theorem Away.context {p : PcbPtr} {s₀ s : Kernel} (h : Away p s₀ s)
    (hmade : p < s₀.npcb) (hlive : s.Live) :
    p < s.npcb ∧ s.pcb.kernelContext p = s₀.pcb.kernelContext p := by
  induction h with
  | left => exact ⟨hmade, rfl⟩
  | @step s a _ hp henabled ih =>
      obtain ⟨hmade', hcontext⟩ := ih henabled.live
      refine ⟨Nat.lt_of_lt_of_le hmade' (take_npcb_le a), ?_⟩
      have hentered : (s.entered a).activePCB = s.activePCB ∧
          (s.entered a).npcb = s.npcb ∧
          (s.entered a).pcb.kernelContext = s.pcb.kernelContext := by
        cases a <;> exact ⟨rfl, rfl, rfl⟩
      have hkept := (take_memoryEffect hlive).kernelContext
        (p := p) (by rw [hentered.1]; exact Ne.symm hp)
        (by rw [hentered.2.1]; exact Nat.ne_of_lt hmade')
      rw [hkept, hentered.2.2]
      exact hcontext

/--
A fork that returns a pid makes the child a copy of its parent on fresh frames
and leaves everything else as it was; the parent's call returns the child's pid,
and the child's returns `0` when it first runs.
-/
theorem fork_copies_process {x : Store Page} {pid : Nat} {calls : ForkCalls}
    {own : Nat → Page} (h : x.Forks pid calls own)
    (hpool : x.PoolUnmapped) :
    x.Copied x.kernel.activePCB x.kernel.npcb own
        (x.kernelFork pid calls own) ∧
      x.Undisturbed x.kernel.npcb own (x.kernelFork pid calls own) ∧
      (x.kernelFork pid calls own).kernel.reg0 x.kernel.activePCB = pid ∧
      (x.kernelFork pid calls own).kernel.pcb.pid x.kernel.npcb = pid ∧
      ∀ s', Away x.kernel.npcb (x.kernelFork pid calls own).kernel s' →
        s'.activePCB = x.kernel.npcb → s'.mode = .kernel →
          (s'.take .resume).mode = .user ∧
            (s'.take .resume).reg0 x.kernel.npcb = 0 := by
  obtain ⟨z, reserved, c, kPt, reserved', hstages⟩ := h.stages hpool
  obtain ⟨forked, hinit, hkernel⟩ := hstages.made
  obtain ⟨-, hnpcb, -, hpid, -, -, -⟩ :=
    Kernel.initProcess_frames h.pid hinit
  have hactive := (Kernel.initProcess_kPt hinit).2
  obtain ⟨-, hparent, hcount, hresult⟩ := hstages.finished.returns
  have hzActive : (z.copyEnd x.kernel.npcb reserved c).kernel.activePCB =
      x.kernel.activePCB := by
    show z.kernel.activePCB = _
    rw [hkernel]
    exact hactive
  have hzPid : (z.copyEnd x.kernel.npcb reserved c).kernel.pcb.pid
      x.kernel.npcb = pid := by
    show z.kernel.pcb.pid x.kernel.npcb = _
    rw [hkernel]
    exact hpid
  have hzCount : (z.copyEnd x.kernel.npcb reserved c).kernel.npcb =
      x.kernel.npcb + 1 := by
    show z.kernel.npcb = _
    rw [hkernel]
    exact hnpcb
  rw [hzActive, hzPid] at hresult
  refine ⟨hstages.copied ⟨h.pid, h.new⟩ h.stack hpool,
    hstages.undisturbed h.pid, hresult, ?_, ?_⟩
  · have hsame : (x.kernelFork pid calls own).kernel.pcb.pid x.kernel.npcb =
        (z.copyEnd x.kernel.npcb reserved c).kernel.pcb.pid x.kernel.npcb := by
      rw [hstages.finished.result]
      rfl
    exact hsame.trans hzPid
  · intro s' haway hrun hmode
    have hmade : x.kernel.npcb < (x.kernelFork pid calls own).kernel.npcb := by
      rw [hcount, hzCount]
      exact Nat.lt_succ_self _
    have hcontext := (haway.context hmade (.inr hmode)).2
    rw [hstages.finished.kernelContext] at hcontext
    have hresume : s'.take .resume = s'.ret 0 := by
      show s'.resume = _
      unfold Kernel.resume
      rw [hrun, hcontext]
    rw [hresume, ← hrun]
    exact ⟨rfl, upd_same _ _ _⟩

/-- The first program after a tick, on a machine whose frames hold their own
numbers. -/
def numberedStore : Store Nat where
  kernel := (Boot.small 20).kernelStart.run tick
  kernelBrk := 40 * pageSize
  ram := fun f => f
  picked := []

instance StackMapped.decidable (kPt : Nat → Pte) :
    Decidable (StackMapped kPt) :=
  inferInstanceAs (Decidable (∀ i, i < kernelStackSize → _))

theorem fork_copies_process_numbered :
    (numberedStore.kernelFork 2 ⟨[50 * pageSize], fun _ => [], []⟩
        fun f => f + 1000).kernel.reg0 1 = 2 ∧
      numberedStore.kernel.activePCB = 1 := by
  have hactive : numberedStore.kernel.activePCB = 1 := by decide +kernel
  have hforks : numberedStore.Forks 2 ⟨[50 * pageSize], fun _ => [], []⟩
      fun f => f + 1000 :=
    ⟨by decide +kernel, by decide +kernel, by decide +kernel,
      by decide +kernel, by decide +kernel, by decide +kernel⟩
  have hpool : numberedStore.PoolUnmapped :=
    ⟨by decide +kernel, by decide +kernel, by decide +kernel⟩
  have hresult := (fork_copies_process hforks hpool).2.2.1
  rw [hactive] at hresult
  exact ⟨hresult, hactive⟩

end Yalnix
