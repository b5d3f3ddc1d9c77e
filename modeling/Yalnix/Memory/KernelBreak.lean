import Yalnix.Kernel.KernelHeap

/-!
# The kernel heap is mapped up to its break

`SetKernelBrk` rounds the break down, so the page that a break inside a page
needs is only mapped when some other address has reached beyond it.
-/

namespace Yalnix

open KernelHeap

/-- The addresses for which `SetKernelBrk` returns `0`. -/
def BrkAccepted (addr : Nat) : Prop := addr ≠ 0 ∧ addr < kernelStackAddr

instance (addr : Nat) : Decidable (BrkAccepted addr) :=
  inferInstanceAs (Decidable (_ ∧ _))

/-- The highest page that a sequence of calls asks for, from `page` on. -/
def highestPage (page : Nat) (addrs : List Nat) : Nat :=
  addrs.foldl
    (fun top addr => if BrkAccepted addr then max top (addr / pageSize) else top)
    page

theorem highestPage_cons (page addr : Nat) (addrs : List Nat) :
    highestPage page (addr :: addrs) =
      highestPage
        (if BrkAccepted addr then max page (addr / pageSize) else page)
        addrs := rfl

theorem highestPage_append (page : Nat) (addrs addrs' : List Nat) :
    highestPage page (addrs ++ addrs') =
      highestPage (highestPage page addrs) addrs' :=
  List.foldl_append

theorem highestPage_max (a b : Nat) (addrs : List Nat) :
    highestPage (max a b) addrs = max a (highestPage b addrs) := by
  induction addrs generalizing b with
  | nil => rfl
  | cons addr addrs ih =>
      rw [highestPage_cons, highestPage_cons]
      split
      · rw [Nat.max_assoc, ih]
      · exact ih b

theorem le_highestPage (page : Nat) (addrs : List Nat) :
    page ≤ highestPage page addrs := by
  have h := highestPage_max page page addrs
  rw [Nat.max_self] at h
  omega

theorem div_le_highestPage {addr : Nat} (hok : BrkAccepted addr) {page : Nat}
    {addrs : List Nat} (h : addr ∈ addrs) :
    addr / pageSize ≤ highestPage page addrs := by
  induction addrs generalizing page with
  | nil => cases h
  | cons addr' addrs ih =>
      rw [highestPage_cons]
      rcases List.mem_cons.1 h with rfl | h
      · rw [if_pos hok]
        have hle := le_highestPage (max page (addr / pageSize)) addrs
        omega
      · exact ih h

namespace KernelHeap

variable {h : KernelHeap} {addr : Nat}

theorem setKernelBrk_refused (hno : ¬ BrkAccepted addr) :
    (h.setKernelBrk addr).2 = h := by
  unfold setKernelBrk
  rw [if_pos]
  unfold BrkAccepted at hno
  omega

theorem setKernelBrks_cons (addrs : List Nat) :
    h.setKernelBrks (addr :: addrs) =
      (h.setKernelBrk addr).2.setKernelBrks addrs := rfl

/-! ## Before virtual memory is enabled -/

theorem round_div (addr : Nat) :
    (addr - addr % pageSize) / pageSize = addr / pageSize := by
  unfold pageSize
  omega

/-- Only the break moves, to the highest page that was asked for. -/
theorem setKernelBrk_disabled (hvm : h.vmEnabled = false) :
    (h.setKernelBrk addr).2.vmEnabled = false ∧
      (h.setKernelBrk addr).2.kPt = h.kPt ∧
      (h.setKernelBrk addr).2.kernelBrk / pageSize =
        if BrkAccepted addr then max (h.kernelBrk / pageSize) (addr / pageSize)
        else h.kernelBrk / pageSize := by
  by_cases hok : BrkAccepted addr
  · have hpass : ¬ (addr = 0 ∨ kernelStackAddr ≤ addr) := by
      unfold BrkAccepted at hok
      omega
    have hoff : ¬ h.vmEnabled = true := by
      rw [hvm]
      exact nofun
    rw [if_pos hok]
    unfold setKernelBrk
    rw [if_neg hpass, if_neg hoff]
    split
    · rename_i hlt
      refine ⟨hvm, rfl, ?_⟩
      have hle : h.kernelBrk / pageSize ≤ addr / pageSize :=
        Nat.div_le_div_right (Nat.le_of_lt hlt)
      rw [Nat.max_eq_right hle]
      exact round_div addr
    · rename_i hge
      refine ⟨hvm, rfl, ?_⟩
      have hle : addr / pageSize ≤ h.kernelBrk / pageSize :=
        Nat.div_le_div_right (Nat.not_lt.1 hge)
      exact (Nat.max_eq_left hle).symm
  · rw [setKernelBrk_refused hok, if_neg hok]
    exact ⟨hvm, rfl, rfl⟩

theorem setKernelBrks_disabled (hvm : h.vmEnabled = false) (addrs : List Nat) :
    (h.setKernelBrks addrs).vmEnabled = false ∧
      (h.setKernelBrks addrs).kPt = h.kPt ∧
      (h.setKernelBrks addrs).kernelBrk / pageSize =
        highestPage (h.kernelBrk / pageSize) addrs := by
  induction addrs generalizing h with
  | nil => exact ⟨hvm, rfl, rfl⟩
  | cons addr addrs ih =>
      obtain ⟨hvm', htable, hbrk⟩ := @setKernelBrk_disabled h addr hvm
      obtain ⟨hvm'', htable', hbrk'⟩ := ih hvm'
      rw [setKernelBrks_cons, highestPage_cons, ← hbrk]
      exact ⟨hvm'', htable'.trans htable, hbrk'⟩

/-! ## After virtual memory is enabled -/

/-- The pages of data and heap are the writable ones below `top`. -/
structure MappedTo (h : KernelHeap) (first top : Nat) : Prop where
  vm : h.vmEnabled = true
  brk : h.kernelBrk / pageSize ≤ top
  valid : ∀ i, first ≤ i → i < kernelStackBase →
    ((h.kPt i).valid = true ↔ i < top)
  writable : ∀ i, first ≤ i → i < kernelStackBase →
    (h.kPt i).valid = true → (h.kPt i).prot = Prot.noXWR

theorem MappedTo.setKernelBrk {first top : Nat} (hmapped : h.MappedTo first top) :
    (h.setKernelBrk addr).2.MappedTo first
      (if BrkAccepted addr then max top (addr / pageSize) else top) := by
  by_cases hok : BrkAccepted addr
  · have hpass : ¬ (addr = 0 ∨ kernelStackAddr ≤ addr) := by
      unfold BrkAccepted at hok
      omega
    rw [if_pos hok]
    unfold KernelHeap.setKernelBrk
    rw [if_neg hpass, if_pos hmapped.vm]
    have hbrk := hmapped.brk
    refine ⟨hmapped.vm, ?_, ?_, ?_⟩
    · show (addr - addr % pageSize) / pageSize ≤ _
      rw [round_div]
      exact Nat.le_max_right _ _
    · intro i hfirst hi
      have hold := hmapped.valid i hfirst hi
      simp only [validatePages_apply]
      split
      · rename_i hin
        exact iff_of_true rfl (by omega)
      · rename_i hout
        rw [hold]
        constructor
        · intro hlt
          omega
        · intro hlt
          by_contra hge
          have hinvalid : (h.kPt i).valid = false := by
            rw [Bool.eq_false_iff, ne_eq, hold]
            exact hge
          exact hout ⟨by omega, by omega, hinvalid⟩
    · intro i hfirst hi
      simp only [validatePages_apply]
      split
      · intro _
        rfl
      · exact hmapped.writable i hfirst hi
  · rw [setKernelBrk_refused hok, if_neg hok]
    exact hmapped

theorem MappedTo.setKernelBrks {first top : Nat} (hmapped : h.MappedTo first top)
    (addrs : List Nat) :
    (h.setKernelBrks addrs).MappedTo first (highestPage top addrs) := by
  induction addrs generalizing h top with
  | nil => exact hmapped
  | cons addr addrs ih =>
      rw [setKernelBrks_cons, highestPage_cons]
      exact ih hmapped.setKernelBrk

end KernelHeap

/-! ## KernelStart -/

namespace KernelImage

variable (image : KernelImage)

/-- The highest page of the kernel's data, of its first break and of a sequence
of calls. -/
def topPage (addrs : List Nat) : Nat :=
  highestPage (max (image.dataEnd / pageSize) (image.origBrk / pageSize)) addrs

theorem setRegion0Pt_heap (kernelBrk : Nat) {i : Nat}
    (hfirst : image.dataStart / pageSize ≤ i) (hi : i < kernelStackBase) :
    setRegion0Pt image kernelBrk i =
      if i < image.dataEnd / pageSize ∨ i < kernelBrk / pageSize then
        ⟨true, Prot.noXWR, i⟩
      else ⟨false, Prot.none, i⟩ := by
  have htext : ¬ i < image.dataStart / pageSize := by omega
  have hstack : ¬ (kernelStackBase ≤ i ∧
      i < kernelStackBase + kernelStackSize) := by omega
  unfold setRegion0Pt
  rw [if_neg htext]
  by_cases hdata : i < image.dataEnd / pageSize
  · rw [if_pos ⟨hfirst, hdata⟩, if_pos (.inl hdata)]
  · have hdata' : ¬ (image.dataStart / pageSize ≤ i ∧
        i < image.dataEnd / pageSize) := fun h => hdata h.2
    rw [if_neg hdata']
    by_cases hheap : i < kernelBrk / pageSize
    · rw [if_pos ⟨Nat.not_lt.1 hdata, hheap⟩, if_pos (.inr hheap)]
    · have hheap' : ¬ (image.dataEnd / pageSize ≤ i ∧
          i < kernelBrk / pageSize) := fun h => hheap h.2
      rw [if_neg hheap', if_neg hstack, if_neg]
      rintro (h | h)
      · exact hdata h
      · exact hheap h

/-- The break and the table when virtual memory is enabled. -/
theorem start_spec (table : Nat → Pte) (before between : List Nat) :
    ∃ kernelBrk kernelBrk',
      kernelBrk / pageSize ≤ kernelBrk' / pageSize ∧
      image.topPage (before ++ between) =
        max (image.dataEnd / pageSize) (kernelBrk' / pageSize) ∧
      image.start table before between =
        { kPt := identityPages (image.dataEnd / pageSize)
            (kernelBrk' / pageSize - image.dataEnd / pageSize)
            (setRegion0Pt image kernelBrk)
          kernelBrk := kernelBrk'
          vmEnabled := true } := by
  unfold start
  simp only
  generalize hfirst : KernelHeap.setKernelBrks
    ⟨table, image.origBrk, false⟩ before = h₁
  obtain ⟨hvm₁, -, hbrk₁⟩ := setKernelBrks_disabled
    (h := ⟨table, image.origBrk, false⟩) rfl before
  rw [hfirst] at hvm₁ hbrk₁
  generalize hsecond : KernelHeap.setKernelBrks
    { h₁ with kPt := setRegion0Pt image h₁.kernelBrk } between = h₂
  obtain ⟨-, htable₂, hbrk₂⟩ := setKernelBrks_disabled
    (h := { h₁ with kPt := setRegion0Pt image h₁.kernelBrk }) hvm₁ between
  rw [hsecond] at htable₂ hbrk₂
  simp only at htable₂ hbrk₁ hbrk₂
  refine ⟨h₁.kernelBrk, h₂.kernelBrk, ?_, ?_, ?_⟩
  · rw [hbrk₂]
    exact le_highestPage _ _
  · unfold topPage
    rw [highestPage_max, highestPage_append, hbrk₂, hbrk₁]
  · rw [htable₂]

/-- When virtual memory is enabled, the heap is mapped up to the break. -/
theorem start_mapped (table : Nat → Pte) (before between : List Nat) :
    (image.start table before between).MappedTo (image.dataStart / pageSize)
      (image.topPage (before ++ between)) := by
  obtain ⟨kernelBrk, kernelBrk', hmono, htop, hstart⟩ :=
    image.start_spec table before between
  have hentry (i : Nat) (hlow : image.dataStart / pageSize ≤ i)
      (hi : i < kernelStackBase) :
      (image.start table before between).kPt i =
        if i < image.topPage (before ++ between) then ⟨true, Prot.noXWR, i⟩
        else ⟨false, Prot.none, i⟩ := by
    rw [hstart, htop]
    simp only [identityPages_apply, setRegion0Pt_heap image _ hlow hi]
    by_cases hin : image.dataEnd / pageSize ≤ i ∧ i < image.dataEnd / pageSize +
        (kernelBrk' / pageSize - image.dataEnd / pageSize)
    · rw [if_pos hin, if_pos]
      omega
    · rw [if_neg hin]
      by_cases hdata : i < image.dataEnd / pageSize
      · rw [if_pos (.inl hdata), if_pos]
        omega
      · rw [if_neg, if_neg]
        · omega
        · omega
  refine ⟨?_, ?_, fun i hlow hi => ?_, fun i hlow hi => ?_⟩
  · rw [hstart]
  · rw [hstart, htop]
    exact Nat.le_max_right _ _
  · rw [hentry i hlow hi]
    split
    · rename_i hlt
      exact iff_of_true rfl hlt
    · rename_i hge
      exact iff_of_false nofun hge
  · rw [hentry i hlow hi]
    split
    · intro _
      rfl
    · exact nofun

end KernelImage

/-! ## The pages of an address range -/

/-- The page contains an address of `[_kernel_data_start, addr)`. -/
def Covers (image : KernelImage) (addr page : Nat) : Prop :=
  ∃ x, image.dataStart ≤ x ∧ x < addr ∧ x / pageSize = page

/-- Every such page is valid and writable. -/
def KernelHeap.Backs (h : KernelHeap) (image : KernelImage) (addr : Nat) :
    Prop :=
  ∀ page, Covers image addr page →
    (h.kPt page).valid = true ∧ (h.kPt page).prot = Prot.noXWR

/--
With virtual memory enabled, an address that `SetKernelBrk` has accepted is
backed by pages exactly when it starts a page, lies below the kernel's data, or
another address has reached beyond its page.
-/
theorem kernel_heap_backed_iff (image : KernelImage) (table : Nat → Pte)
    (before between after : List Nat) {addr : Nat}
    (hcall : addr ∈ before ++ between ++ after) (hok : BrkAccepted addr) :
    ((image.start table before between).setKernelBrks after).Backs image addr ↔
      addr ≤ image.dataStart ∨ addr % pageSize = 0 ∨
        addr / pageSize < image.topPage (before ++ between ++ after) := by
  have hmapped := (image.start_mapped table before between).setKernelBrks after
  have htop : highestPage (image.topPage (before ++ between)) after =
      image.topPage (before ++ between ++ after) :=
    (highestPage_append _ _ _).symm
  rw [htop] at hmapped
  have hreach : addr / pageSize ≤ image.topPage (before ++ between ++ after) :=
    div_le_highestPage hok hcall
  have hstack : addr < kernelStackBase * pageSize := hok.2
  unfold pageSize at hmapped hreach hstack ⊢
  constructor
  · intro hbacks
    by_contra hno
    have hlast : Covers image addr (addr / 8192) :=
      ⟨addr - 1, by omega, by omega, by unfold pageSize; omega⟩
    have hvalid := (hbacks _ hlast).1
    rw [hmapped.valid _ (by omega) (by omega)] at hvalid
    omega
  · rintro hcases page ⟨x, hx, hlt, rfl⟩
    unfold pageSize
    have hlow : image.dataStart / 8192 ≤ x / 8192 := Nat.div_le_div_right hx
    have hpage : x / 8192 < kernelStackBase := by omega
    have hvalid := (hmapped.valid _ hlow hpage).2 (by omega)
    exact ⟨hvalid, hmapped.writable _ hlow hpage hvalid⟩

/-- Two pages of text and two of data, with the break behind them. -/
def smallImage : KernelImage :=
  { dataStart := 2 * pageSize, dataEnd := 4 * pageSize, origBrk := 4 * pageSize }

/-- A break inside page 4 does not map page 4. -/
theorem partial_page_not_backed :
    ¬ ∀ (image : KernelImage) (table : Nat → Pte)
      (before between after : List Nat) (addr : Nat),
      addr ∈ before ++ between ++ after → BrkAccepted addr →
      ((image.start table before between).setKernelBrks after).Backs image
        addr := by
  intro hall
  have hbacks := hall smallImage (fun _ => invalidPte) [] []
    [4 * pageSize + 16] (4 * pageSize + 16) (by decide) (by decide)
  have hcovers : Covers smallImage (4 * pageSize + 16) 4 :=
    ⟨4 * pageSize, by decide, by decide, by decide⟩
  exact absurd (hbacks 4 hcovers).1 (by decide)

theorem kernel_heap_backed_iff_small :
    ((smallImage.start (fun _ => invalidPte) [5 * pageSize + 1]
      []).setKernelBrks [7 * pageSize]).Backs smallImage (5 * pageSize + 1) :=
  (kernel_heap_backed_iff smallImage (fun _ => invalidPte) [5 * pageSize + 1]
    [] [7 * pageSize] (by decide) (by decide)).2 (.inr (.inr (by decide)))

end Yalnix
